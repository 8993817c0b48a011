import Mathlib.Data.List.Nodup
import Mathlib.Data.List.Sort
import Mathlib.Logic.Function.Basic

/- The comments on the lines of a file, as threads (`threadsOf`, `placed`, `unplaced` and
   `threadCounts`, `src/features/pull-requests/threads.ts`).

   A first pass makes a thread of each comment whose parent is not here, and a second one puts each
   of the others under its parent, where that is a thread. The counts go by a third rule: a thread
   is a comment that answers none. -/
namespace Yardsort.Forge

structure LineComment where
  id : String
  path : String
  line : Option Nat
  outdated : Bool
  wholeFile : Bool
  at_ : Option Int
  inReplyTo : Option String

/-- A comment on lines and the replies under it, oldest first. -/
structure Thread where
  root : LineComment
  replies : List LineComment

def LineComment.answers (comment : LineComment) : Option String :=
  comment.inReplyTo.filter (· ≠ "")

def setThread (threads : List Thread) (thread : Thread) : List Thread :=
  if threads.any (·.root.id = thread.root.id) then
    threads.map fun t => if t.root.id = thread.root.id then thread else t
  else threads ++ [thread]

def pushReply (threads : List Thread) (parent : String) (comment : LineComment) : List Thread :=
  threads.map fun t => if t.root.id = parent then { t with replies := t.replies ++ [comment] } else t

def ownOf (comments : List LineComment) (path : String) : List LineComment :=
  comments.filter (·.path = path)

def hasParent (own : List LineComment) (comment : LineComment) : Bool :=
  comment.answers.any fun parent => own.any (·.id = parent)

def rooted (own : List LineComment) : List Thread :=
  own.foldl (fun threads comment =>
    if hasParent own comment then threads else setThread threads ⟨comment, []⟩) []

def replied (own : List LineComment) (threads : List Thread) : List Thread :=
  own.foldl (fun threads comment =>
    match comment.answers with
    | some parent =>
      if threads.any (·.root.id = parent) then pushReply threads parent comment else threads
    | none => threads) threads

def threadsOf (comments : List LineComment) (path : String) : List Thread :=
  let own := ownOf comments path
  (replied own (rooted own)).insertionSort fun a b => a.root.at_.getD 0 ≤ b.root.at_.getD 0

/-- The threads that still have a line to sit on: not outdated, not about the whole file. -/
def placed (threads : List Thread) : List Thread :=
  threads.filter fun t => t.root.line ≠ none && !t.root.outdated && !t.root.wholeFile

def unplaced (threads : List Thread) : List Thread :=
  threads.filter fun t => (placed [t]).length = 0

def threadCounts (comments : List LineComment) : String → Option Nat :=
  comments.foldl (fun counts comment =>
    match comment.answers with
    | some _ => counts
    | none => Function.update counts comment.path (some ((counts comment.path).getD 0 + 1)))
    fun _ => none

/-! ## What the passes make -/

section
variable {own : List LineComment}

def isRoot (own : List LineComment) (comment : LineComment) : Bool := !hasParent own comment

theorem setThread_new {threads : List Thread} {thread : Thread}
    (h : thread.root.id ∉ threads.map (·.root.id)) :
    setThread threads thread = threads ++ [thread] := by
  apply if_neg
  simpa using h

theorem rooted_fold (threads : List Thread) (comments : List LineComment)
    (h : (threads.map (·.root.id) ++ comments.map (·.id)).Nodup) :
    comments.foldl (fun threads comment =>
        if hasParent own comment then threads else setThread threads ⟨comment, []⟩) threads =
      threads ++ (comments.filter (isRoot own)).map (⟨·, []⟩) := by
  induction comments generalizing threads with
  | nil => simp
  | cons comment comments ih =>
    have hnew : comment.id ∉ threads.map (·.root.id) := by
      intro hmem
      exact (List.nodup_append.mp h).2.2 _ hmem _ (by simp) rfl
    rw [List.foldl_cons]
    cases hp : hasParent own comment with
    | true =>
      rw [if_pos rfl, ih threads]
      · simp [isRoot, hp]
      · exact h.sublist (List.Sublist.append_left (List.sublist_cons_self ..) _)
    | false =>
      rw [if_neg Bool.false_ne_true, setThread_new hnew, ih]
      · simp [isRoot, hp]
      · simpa using h

theorem rooted_eq (h : (own.map (·.id)).Nodup) :
    rooted own = (own.filter (isRoot own)).map (⟨·, []⟩) := by
  unfold rooted
  rw [rooted_fold [] own (by simpa using h), List.nil_append]

theorem replied_eq (comments : List LineComment) (threads : List Thread) :
    replied comments threads =
      threads.map fun t => { t with
        replies := t.replies ++ comments.filter (·.answers = some t.root.id) } := by
  unfold replied
  induction comments generalizing threads with
  | nil => simp
  | cons comment comments ih =>
    rw [List.foldl_cons, ih]
    cases ha : comment.answers with
    | none => simp [ha]
    | some parent =>
      dsimp only
      split
      · rw [pushReply, List.map_map]
        apply List.map_congr_left
        intro t _
        by_cases ht : t.root.id = parent
        · simp [ha, ht]
        · have hne : parent ≠ t.root.id := fun h => ht h.symm
          simp [ha, ht, hne]
      · rename_i hnone
        apply List.map_congr_left
        intro t ht
        have hne : parent ≠ t.root.id := by
          intro heq
          exact hnone (List.any_eq_true.mpr ⟨t, ht, by simp [heq]⟩)
        simp [ha, hne]

def threadOf (own : List LineComment) (root : LineComment) : Thread :=
  ⟨root, own.filter (·.answers = some root.id)⟩

theorem threads_perm {comments : List LineComment} {path : String}
    (h : ((ownOf comments path).map (·.id)).Nodup) :
    (threadsOf comments path).Perm
      (((ownOf comments path).filter (isRoot (ownOf comments path))).map
        (threadOf (ownOf comments path))) := by
  refine (List.perm_insertionSort _ _).trans ?_
  rw [replied_eq, rooted_eq h, List.map_map]
  exact List.Perm.of_eq (List.map_congr_left fun root _ => by simp [threadOf])

theorem isRoot_of_first {comment : LineComment} (h : comment.answers = none) :
    isRoot own comment = true := by
  simp [isRoot, hasParent, h]

/-- Every reply of the file answers a first comment of it. -/
def Flat (own : List LineComment) : Prop :=
  ∀ comment ∈ own, ∀ parent, comment.answers = some parent →
    ∃ first ∈ own, first.id = parent ∧ first.answers = none

theorem Flat.root_first (h : Flat own) {comment : LineComment} (hc : comment ∈ own)
    (hroot : isRoot own comment = true) : comment.answers = none := by
  cases ha : comment.answers with
  | none => rfl
  | some parent =>
    obtain ⟨first, hf, hid, -⟩ := h comment hc parent ha
    have hparent : hasParent own comment = true := by
      simpa [hasParent, ha] using ⟨first, hf, hid⟩
    rw [isRoot, hparent] at hroot
    cases hroot

theorem id_inj (h : (own.map (·.id)).Nodup) {a b : LineComment} (ha : a ∈ own) (hb : b ∈ own)
    (hid : a.id = b.id) : a = b :=
  List.inj_on_of_nodup_map h ha hb hid

/-- Where every reply answers a first comment, nothing is lost and nothing is there twice. -/
theorem Flat.once (h : Flat own) (hids : (own.map (·.id)).Nodup) :
    (((own.filter (isRoot own)).map (threadOf own)).flatMap
      fun t => t.root :: t.replies).Perm own := by
  have hown : own.Nodup := hids.of_map
  have hroots : ∀ r ∈ own.filter (isRoot own), r ∈ own ∧ r.answers = none := by
    intro r hr
    obtain ⟨hr, hroot⟩ := List.mem_filter.mp hr
    exact ⟨hr, h.root_first hr hroot⟩
  rw [List.flatMap_map, List.perm_ext_iff_of_nodup _ hown]
  · intro comment
    simp only [List.mem_flatMap, threadOf, List.mem_cons, List.mem_filter]
    constructor
    · rintro ⟨r, ⟨hr, -⟩, rfl | ⟨hc, -⟩⟩
      · exact hr
      · exact hc
    · intro hc
      cases ha : comment.answers with
      | none => exact ⟨comment, ⟨hc, isRoot_of_first ha⟩, .inl rfl⟩
      | some parent =>
        obtain ⟨first, hf, rfl, hfirst⟩ := h comment hc parent ha
        exact ⟨first, ⟨hf, isRoot_of_first hfirst⟩, .inr ⟨hc, by simp⟩⟩
  · rw [List.nodup_flatMap]
    constructor
    · intro r hr
      refine List.nodup_cons.mpr ⟨?_, hown.filter _⟩
      intro hmem
      have hself : r.answers = some r.id := of_decide_eq_true (List.mem_filter.mp hmem).2
      rw [(hroots r hr).2] at hself
      cases hself
    · have hsub : (own.filter (isRoot own)).Nodup := hown.filter _
      refine hsub.pairwise_of_forall_ne ?_
      intro a ha b hb hne
      obtain ⟨haown, hanone⟩ := hroots a ha
      obtain ⟨hbown, hbnone⟩ := hroots b hb
      intro comment hca hcb
      simp only [threadOf, List.mem_cons, List.mem_filter, decide_eq_true_eq] at hca hcb
      obtain rfl | ⟨-, hca⟩ := hca
      · obtain rfl | ⟨-, hcb⟩ := hcb
        · exact hne rfl
        · rw [hanone] at hcb
          cases hcb
      · obtain rfl | ⟨-, hcb⟩ := hcb
        · rw [hbnone] at hca
          cases hca
        · rw [hca] at hcb
          exact hne (id_inj hids haown hbown (Option.some.inj hcb))

end

theorem counts_fold (comments : List LineComment) (counts : String → Option Nat) (path : String) :
    ((comments.foldl (fun counts comment =>
      match comment.answers with
      | some _ => counts
      | none => Function.update counts comment.path (some ((counts comment.path).getD 0 + 1)))
      counts) path).getD 0 =
      (counts path).getD 0 + ((ownOf comments path).filter (·.answers = none)).length := by
  induction comments generalizing counts with
  | nil => simp [ownOf]
  | cons comment comments ih =>
    rw [List.foldl_cons, ih]
    cases ha : comment.answers with
    | some parent => by_cases hp : comment.path = path <;> simp [ownOf, hp, ha]
    | none =>
      by_cases hp : comment.path = path
      · subst hp
        simp [ownOf, ha]
        omega
      · have hne : path ≠ comment.path := fun h => hp h.symm
        simp [ownOf, hp, hne]

theorem threadCounts_eq (comments : List LineComment) (path : String) :
    (threadCounts comments path).getD 0 =
      ((ownOf comments path).filter (·.answers = none)).length := by
  unfold threadCounts
  rw [counts_fold]
  simp

/-- Each comment of the file is in one thread, with the replies in the list's order; the threads are
    either placed or not; and the count of the file is theirs. -/
structure Threaded (comments : List LineComment) (path : String) : Prop where
  once : ((threadsOf comments path).flatMap fun t => t.root :: t.replies).Perm
    (ownOf comments path)
  inOrder : ∀ t ∈ threadsOf comments path, t.replies.Sublist comments
  split : (placed (threadsOf comments path) ++ unplaced (threadsOf comments path)).Perm
    (threadsOf comments path)
  apart : ∀ t ∈ placed (threadsOf comments path), t ∉ unplaced (threadsOf comments path)
  counted : (threadCounts comments path).getD 0 = (threadsOf comments path).length

theorem unplaced_eq (threads : List Thread) :
    unplaced threads = threads.filter fun t =>
      !(t.root.line ≠ none && !t.root.outdated && !t.root.wholeFile) := by
  unfold unplaced
  congr 1
  funext t
  cases hplace : (t.root.line ≠ none && !t.root.outdated && !t.root.wholeFile : Bool) with
  | true => simp only [placed, List.filter_cons, hplace, if_true]; rfl
  | false => simp only [placed, List.filter_cons, hplace]; rfl

/-- **Threads lose no comment** if and only if every reply of the file answers a first comment of
    it; and only then is the count of the file right. -/
theorem threads_lose_nothing (comments : List LineComment) (path : String)
    (h : (comments.map (·.id)).Nodup) :
    Threaded comments path ↔ Flat (ownOf comments path) := by
  have hsub : (ownOf comments path).Sublist comments := List.filter_sublist
  have hids : ((ownOf comments path).map (·.id)).Nodup := h.sublist (hsub.map _)
  have hperm := threads_perm hids
  constructor
  · intro hthreaded comment hc parent ha
    -- as many threads as first comments: every thread is one's
    have hfirsts : ∀ root ∈ ownOf comments path, isRoot (ownOf comments path) root = true →
        root.answers = none := by
      have hlength := hthreaded.counted
      rw [threadCounts_eq, hperm.length_eq, List.length_map] at hlength
      have hle : ((ownOf comments path).filter (·.answers = none)).Sublist
          ((ownOf comments path).filter (isRoot (ownOf comments path))) :=
        List.monotone_filter_right _ fun c hnone =>
          isRoot_of_first (of_decide_eq_true hnone)
      have heq := hle.eq_of_length hlength
      intro root hroot hr
      have hmem := heq ▸ List.mem_filter.mpr ⟨hroot, hr⟩
      exact of_decide_eq_true (List.mem_filter.mp hmem).2
    have hmem := hthreaded.once.mem_iff.mpr hc
    obtain ⟨t, ht, hin⟩ := List.mem_flatMap.mp hmem
    obtain ⟨root, hroot, rfl⟩ := List.mem_map.mp (hperm.mem_iff.mp ht)
    obtain ⟨hroot, hisroot⟩ := List.mem_filter.mp hroot
    have hnone := hfirsts root hroot hisroot
    obtain hself | hin := List.mem_cons.mp hin
    · rw [hself, threadOf, hnone] at ha
      cases ha
    · have hanswer := (List.mem_filter.mp hin).2
      rw [ha] at hanswer
      exact ⟨root, hroot, (Option.some.inj (of_decide_eq_true hanswer)).symm, hnone⟩
  · intro hflat
    refine ⟨(hperm.flatMap_right _).trans (hflat.once hids), ?_, ?_, ?_, ?_⟩
    · intro t ht
      obtain ⟨root, -, rfl⟩ := List.mem_map.mp (hperm.mem_iff.mp ht)
      exact List.filter_sublist.trans hsub
    · rw [unplaced_eq]
      exact List.filter_append_perm _ _
    · intro t hplaced hun
      rw [unplaced_eq] at hun
      have hyes := (List.mem_filter.mp hplaced).2
      have hno := (List.mem_filter.mp hun).2
      rw [hyes] at hno
      cases hno
    · rw [threadCounts_eq, hperm.length_eq, List.length_map]
      congr 1
      apply List.filter_congr
      intro comment hc
      cases hroot : isRoot (ownOf comments path) comment with
      | true => simp [hflat.root_first hc hroot]
      | false =>
        cases ha : comment.answers with
        | none =>
          rw [isRoot_of_first ha] at hroot
          cases hroot
        | some parent => simp

def chain : List LineComment :=
  [⟨"1", "a.rs", some 4, false, false, some 1, none⟩,
    ⟨"2", "a.rs", some 4, false, false, some 2, some "1"⟩,
    ⟨"3", "a.rs", some 4, false, false, some 3, some "2"⟩]

theorem chain_loses_its_third :
    (chain.map (·.id)).Nodup ∧ ¬ Threaded chain "a.rs" := by
  refine ⟨by decide, fun h => ?_⟩
  have hlength := h.once.length_eq
  revert hlength
  decide +kernel

theorem threads_lose_nothing_two :
    Threaded (chain.take 2) "a.rs" ↔ Flat (ownOf (chain.take 2) "a.rs") :=
  threads_lose_nothing (chain.take 2) "a.rs" (by decide)

end Yardsort.Forge
