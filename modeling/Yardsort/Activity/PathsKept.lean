import Yardsort.Activity.PathsRead

/- Where the answer for a reported path is right, and what makes it wrong: a `..` taken at a name
   that ends in a colon and is no drive. -/
namespace Yardsort.Activity.Paths
open Yardsort.Lib

def Inside (root full : List Text) : Prop :=
  root.length ≤ full.length ∧ (root.zip full).all (fun (a, b) => sameAs root a b) = true

instance (root full : List Text) : Decidable (Inside root full) :=
  inferInstanceAs (Decidable (_ ∧ _))

theorem workspaceRelative_eq {path cwd : Text} {root full : List Text}
    (hroot : normalized [] cwd = root)
    (hfull : (if isAbsolute path then normalized [] path else normalized root path) = full) :
    workspaceRelative path (some cwd) =
      if Inside root full then (some (textOf (full.drop root.length)), false)
      else (none, true) := by
  subst hroot hfull
  rw [workspaceRelative]
  by_cases h : Inside (normalized [] cwd)
      (if isAbsolute path then normalized [] path else normalized (normalized [] cwd) path)
  · rw [if_pos h, textOf]
    unfold Inside at h
    rw [if_neg (not_not.mpr h)]
    dsimp only
    generalize ['/'].intercalate (List.drop _ _) = given
    split <;> rfl
  · rw [if_neg h]
    unfold Inside at h
    rw [if_pos h]

section
variable {α β : Type} {f : α → β}

theorem map_prefix_iff {l₁ l₂ : List α} :
    l₁.map f <+: l₂.map f ↔ l₁.length ≤ l₂.length ∧ ∀ ab ∈ l₁.zip l₂, f ab.1 = f ab.2 := by
  induction l₁ generalizing l₂ with
  | nil => simp
  | cons a l₁ ih =>
    cases l₂ with
    | nil => simp
    | cons b l₂ =>
      rw [map_cons, map_cons, cons_prefix_cons, ih]
      simp only [length_cons, List.zip_cons_cons, mem_cons, forall_eq_or_imp]
      constructor
      · rintro ⟨hab, hle, hrest⟩
        exact ⟨by omega, hab, hrest⟩
      · rintro ⟨hle, hab, hrest⟩
        exact ⟨hab, by omega, hrest⟩

theorem append_prefix_append {a a' c c' : List α} (h : a.length = a'.length) :
    a ++ c <+: a' ++ c' ↔ a' = a ∧ c <+: c' := by
  constructor
  · rintro ⟨rest, hrest⟩
    rw [append_assoc] at hrest
    obtain ⟨ha, hc⟩ := append_inj hrest h
    exact ⟨ha.symm, rest, hc⟩
  · rintro ⟨rfl, hc⟩
    exact (prefix_append_right_inj a').mpr hc

end

/-- A drive ends in a colon, and the server of a share does not. -/
def AnchorOf : Platform → List Text → Prop
  | .unix, anchor => anchor = []
  | .windows _, anchor => (∃ name, anchor = [name] ∧ endsWithColon name = true) ∨
      ∃ server name, anchor = [server, name] ∧ endsWithColon server = false

theorem anchorOf {p : Platform} {path : Text} {anchor : List Text} (halike : p.Alike path)
    (h : (p.read path).1.anchor = some anchor) : AnchorOf p anchor := by
  cases p with
  | unix =>
    cases path with
    | nil => cases h
    | cons c rest =>
      rw [Platform.read, readUnix] at h
      split at h
      · exact (Option.some.inj h).symm
      · cases h
  | windows fold =>
    have hread := windows_read path
    rw [Platform.Alike] at halike
    rw [Platform.read] at h
    generalize readWindows path = read at hread halike h
    cases hread with
    | drive c =>
      cases h
      exact .inl ⟨[c, ':'], rfl, rfl⟩
    | share c d rest server name parts hc hd hpath hsplit =>
      cases h
      exact .inr ⟨server, name, rfl, halike.1.2⟩
    | relative => cases h
    | other start parts hstart =>
      obtain rfl | rfl | ⟨name, rfl⟩ := hstart <;> cases h

theorem toLower_colon {c : Char} : c.toLower = ':' ↔ c = ':' := by
  constructor
  · intro h
    unfold Char.toLower at h
    split at h
    · rename_i hupper
      have hlow := UInt32.le_iff_toNat_le.mp hupper.1
      have hhigh := UInt32.le_iff_toNat_le.mp hupper.2
      have hval : (c.val + 32).toNat = 58 := congrArg (fun c : Char => c.val.toNat) h
      rw [UInt32.toNat_add] at hval
      simp only [UInt32.reduceToNat, Char.reduceVal] at hlow hhigh hval
      omega
    · exact h
  · rintro rfl
    rfl

theorem endsWithColon_lower (name : Text) :
    endsWithColon (name.map Char.toLower) = endsWithColon name := by
  unfold endsWithColon
  rw [List.getLast?_map]
  cases name.getLast? with
  | none => rfl
  | some c =>
    rw [Bool.eq_iff_iff]
    simp [toLower_colon]

theorem sameAs_colon {root : List Text} {a b : Text} (h : sameAs root a b = true) :
    endsWithColon a = endsWithColon b := by
  unfold sameAs at h
  split at h
  · rw [← endsWithColon_lower a, ← endsWithColon_lower b, eq_of_beq h]
  · rw [eq_of_beq h]

theorem not_inside {p : Platform} {anchor anchor' comps comps' : List Text}
    (h : AnchorOf p anchor) (h' : AnchorOf p anchor') (hne : anchor'.length ≠ anchor.length) :
    ¬ Inside (anchor ++ comps) (anchor' ++ comps') := by
  rintro ⟨-, hall⟩
  rw [all_eq_true] at hall
  cases p with
  | unix =>
    obtain rfl : anchor = [] := h
    obtain rfl : anchor' = [] := h'
    exact hne rfl
  | windows fold =>
    obtain ⟨name, rfl, hname⟩ | ⟨server, name, rfl, hserver⟩ := h
    · obtain ⟨name', rfl, -⟩ | ⟨server, name', rfl, hserver⟩ := h'
      · exact hne rfl
      · have hsame := sameAs_colon (hall (name, server) (by simp))
        rw [hname, hserver] at hsame
        cases hsame
    · obtain ⟨name', rfl, hname⟩ | ⟨server', name', rfl, -⟩ := h'
      · have hsame := sameAs_colon (hall (server, name') (by simp))
        rw [hname, hserver] at hsame
        cases hsame
      · exact hne rfl

section
variable {p : Platform} {cwd path : Text} {dir at_ : Place}

theorem directory_some (h : p.directory cwd = some dir) :
    (p.read cwd).1.anchor = some dir.anchor ∧ dir.comps = walk [] (p.read cwd).2 := by
  rw [Platform.directory] at h
  obtain ⟨anchor, hanchor, rfl⟩ := map_eq_some_iff.mp h
  exact ⟨hanchor, rfl⟩

theorem directory_comps (halike : p.Alike cwd) (h : p.directory cwd = some dir) :
    ∀ name ∈ dir.comps, Comp name := by
  rw [(directory_some h).2]
  exact walk_comps (by simp) (read_no_sep halike)

theorem normalized_directory (halike : p.Alike cwd) (h : p.directory cwd = some dir)
    (hsteady : steady dir.anchor [] (p.read cwd).2 = true) :
    normalized [] cwd = dir.anchor ++ dir.comps := by
  obtain ⟨hanchor, hcomps⟩ := directory_some h
  rw [(normalized_anchored halike hanchor).2, hcomps, ← foldl_step hsteady, append_nil]

theorem Level.full (h : Level p cwd dir path) (hdir : p.directory cwd = some dir) :
    ∃ at_, p.place dir path = some at_ ∧ AnchorOf p at_.anchor ∧ (∀ name ∈ at_.comps, Comp name) ∧
      (if isAbsolute path then normalized [] path else normalized (dir.anchor ++ dir.comps) path) =
        at_.anchor ++ at_.comps := by
  obtain hrelative | ⟨anchor, hanchor⟩ := h.pathAlike.start
  · obtain ⟨habsolute, hfull⟩ := normalized_relative h.pathAlike hrelative (dir.anchor ++ dir.comps)
    refine ⟨⟨dir.anchor, walk dir.comps (p.read path).2⟩, ?_,
      anchorOf h.cwdAlike (directory_some hdir).1,
      walk_comps (directory_comps h.cwdAlike hdir) (read_no_sep h.pathAlike), ?_⟩
    · rw [Platform.place]
      dsimp only
      rw [hrelative]
    · rw [if_neg (by simp [habsolute]), hfull]
      exact foldl_step (h.pathSteady hrelative)
  · obtain ⟨habsolute, hfull⟩ := normalized_anchored h.pathAlike hanchor
    refine ⟨⟨anchor, walk [] (p.read path).2⟩, ?_, anchorOf h.pathAlike hanchor,
      walk_comps (by simp) (read_no_sep h.pathAlike), ?_⟩
    · rw [Platform.place]
      dsimp only
      cases hstart : (p.read path).1 <;> rw [hstart] at hanchor <;>
        first | (obtain rfl := Option.some.inj hanchor; rfl) | cases hanchor
    · have hwalk := foldl_step (h.pathSteady' anchor hanchor)
      rw [append_nil] at hwalk
      rw [if_pos habsolute, hfull, hwalk]

theorem cased_all {root names others : List Text} (h : p.Cased root names others) :
    (names.zip others).all (fun (a, b) => sameAs root a b) = true ↔
      ∀ ab ∈ names.zip others, p.key ab.1 = p.key ab.2 := by
  induction names generalizing others with
  | nil => simp
  | cons name names ih =>
    cases others with
    | nil => simp
    | cons other others =>
      obtain ⟨hone, hrest⟩ := h
      rw [List.zip_cons_cons, List.all_cons, Bool.and_eq_true, forall_mem_cons, hone]
      exact and_congr_right fun hsame => ih (hrest hsame)

/-- A place lies in the directory where its names, the anchor's among them, are the directory's. -/
theorem liesIn_iff (hlen : at_.anchor.length = dir.anchor.length) :
    p.LiesIn at_ dir ↔ (dir.anchor ++ dir.comps).length ≤ (at_.anchor ++ at_.comps).length ∧
      ∀ ab ∈ (dir.anchor ++ dir.comps).zip (at_.anchor ++ at_.comps),
        p.key ab.1 = p.key ab.2 := by
  rw [← map_prefix_iff, map_append, map_append, append_prefix_append (by simp [hlen])]
  rfl

theorem inside_iff (hdir : AnchorOf p dir.anchor) (hat : AnchorOf p at_.anchor)
    (hcased : (dir.anchor ++ dir.comps).length ≤ (at_.anchor ++ at_.comps).length →
      p.Cased (dir.anchor ++ dir.comps) (dir.anchor ++ dir.comps) (at_.anchor ++ at_.comps)) :
    Inside (dir.anchor ++ dir.comps) (at_.anchor ++ at_.comps) ↔ p.LiesIn at_ dir := by
  by_cases hlen : at_.anchor.length = dir.anchor.length
  · rw [liesIn_iff hlen, Inside]
    exact and_congr_right fun hle => cased_all (hcased hle)
  · constructor
    · intro hinside
      exact absurd hinside (not_inside hdir hat hlen)
    · rintro ⟨hanchor, -⟩
      have hsame := congrArg List.length hanchor
      rw [Platform.keys, Platform.keys, length_map, length_map] at hsame
      exact absurd hsame hlen

/-- With `.` and `..` taken alike, the answer is right exactly where the names are compared as the
    platform compares them. -/
theorem level_right (h : Level p cwd dir path) (hdir : p.directory cwd = some dir) :
    ∃ at_, p.place dir path = some at_ ∧ AnchorOf p dir.anchor ∧ AnchorOf p at_.anchor ∧
      (Right p cwd dir path (workspaceRelative path (some cwd)) ↔
        (Inside (dir.anchor ++ dir.comps) (at_.anchor ++ at_.comps) ↔ p.LiesIn at_ dir)) := by
  obtain ⟨at_, hplace, hanchor, hcomps, hfull⟩ := h.full hdir
  obtain ⟨hcwd, hwalk⟩ := directory_some hdir
  have hroot := normalized_directory h.cwdAlike hdir h.cwdSteady
  have hanswer := workspaceRelative_eq hroot hfull
  refine ⟨at_, hplace, anchorOf h.cwdAlike hcwd, hanchor, ?_, fun hinside => ⟨?_, ?_⟩⟩
  -- an answer on the wrong side is not right
  · intro hright
    constructor
    · intro hin
      by_contra hlies
      have hout := hright.outside fun other hother => by
        cases hplace.symm.trans hother
        exact hlies
      rw [hanswer, if_pos hin] at hout
      cases hout
    · intro hlies
      by_contra hin
      obtain ⟨text, htext, -⟩ := hright.inside at_ hplace hlies
      rw [hanswer, if_neg hin] at htext
      cases htext
  · intro other hother hlies
    cases hplace.symm.trans hother
    have hlen : at_.anchor.length = dir.anchor.length := by
      have hsame := congrArg List.length hlies.1
      rwa [Platform.keys, Platform.keys, length_map, length_map] at hsame
    have hdrop : (at_.anchor ++ at_.comps).drop (dir.anchor ++ dir.comps).length =
        at_.comps.drop dir.comps.length := by
      have hnone : at_.anchor.drop (dir.anchor ++ dir.comps).length = [] :=
        drop_eq_nil_of_le (by rw [length_append]; omega)
      rw [drop_append, hnone, nil_append, length_append, hlen,
        Nat.add_sub_cancel_left]
    rw [if_pos (hinside.mpr hlies), hdrop] at hanswer
    have hnames : ∀ name ∈ at_.comps.drop dir.comps.length, Comp name := fun name hname =>
      hcomps name (List.mem_of_mem_drop hname)
    obtain ⟨hdots, hjoined⟩ := textOf_joined hcwd hnames
    refine ⟨_, hanswer, hdots, _, hjoined, hlies.1.symm, ?_⟩
    obtain ⟨rest, hrest⟩ := hlies.2
    rw [← hwalk]
    rw [Platform.keys, map_append, List.map_drop]
    rw [Platform.keys, Platform.keys] at hrest
    rw [Platform.keys, ← hrest]
    have hlength : dir.comps.length = (dir.comps.map p.key).length := (length_map _).symm
    rw [hlength, drop_left]
  · intro hout
    have hno : ¬ Inside (dir.anchor ++ dir.comps) (at_.anchor ++ at_.comps) := fun hin =>
      hout at_ hplace (hinside.mp hin)
    rw [hanswer, if_neg hno]

theorem plain_right (h : Plain p cwd dir path) (hdir : p.directory cwd = some dir) :
    Right p cwd dir path (workspaceRelative path (some cwd)) := by
  obtain ⟨at_, hplace, hcwd, hanchor, hright⟩ := level_right h.toLevel hdir
  exact hright.mpr (inside_iff hcwd hanchor (h.cased at_ hplace))

/-- Where the two compare all names but one as the same, and that one otherwise than the other does,
    the answer is wrong. -/
theorem case_wrong (h : Level p cwd dir path) (hdir : p.directory cwd = some dir)
    (hplace : p.place dir path = some at_)
    (hanchor : at_.anchor.length = dir.anchor.length)
    (hlen : (dir.anchor ++ dir.comps).length ≤ (at_.anchor ++ at_.comps).length)
    {before after : List (Text × Text)} {one : Text × Text}
    (hzip : (dir.anchor ++ dir.comps).zip (at_.anchor ++ at_.comps) = before ++ one :: after)
    (hothers : ∀ ab ∈ before ++ after,
      sameAs (dir.anchor ++ dir.comps) ab.1 ab.2 = true ∧ p.key ab.1 = p.key ab.2)
    (hone : ¬ (sameAs (dir.anchor ++ dir.comps) one.1 one.2 = true ↔ p.key one.1 = p.key one.2)) :
    ¬ Right p cwd dir path (workspaceRelative path (some cwd)) := by
  obtain ⟨at', hplace', -, -, hright⟩ := level_right h hdir
  cases hplace.symm.trans hplace'
  rw [hright, liesIn_iff hanchor, Inside, hzip]
  intro hsame
  refine hone ?_
  have hbefore : ∀ ab ∈ before, _ := fun ab hab => hothers ab (mem_append_left _ hab)
  have hafter : ∀ ab ∈ after, _ := fun ab hab => hothers ab (mem_append_right _ hab)
  -- all names but the one agree, so the answer turns on it
  constructor
  · intro hcode
    have hall : (before ++ one :: after).all
        (fun (a, b) => sameAs (dir.anchor ++ dir.comps) a b) = true := by
      rw [List.all_append, List.all_cons, Bool.and_eq_true, Bool.and_eq_true, all_eq_true, all_eq_true]
      exact ⟨fun ab hab => (hbefore ab hab).1, hcode, fun ab hab => (hafter ab hab).1⟩
    exact (hsame.mp ⟨hlen, hall⟩).2 one (mem_append_right _ mem_cons_self)
  · intro hkey
    have hall : ∀ ab ∈ before ++ one :: after, p.key ab.1 = p.key ab.2 := by
      intro ab hab
      obtain hab | hab := mem_append.mp hab
      · exact (hbefore ab hab).2
      · obtain rfl | hab := mem_cons.mp hab
        · exact hkey
        · exact (hafter ab hab).2
    exact all_eq_true.mp (hsame.mpr ⟨hlen, hall⟩).2 one (mem_append_right _ mem_cons_self)

end

/-- What the code has kept is more than what is left of the path: it has stopped at a name that ends
    in a colon. -/
structure Floored (base kept left : List Text) : Prop where
  comps : ∀ name ∈ kept, Comp name
  floor : ∃ floor rest under, base <+: floor ∧ floor.getLast?.any endsWithColon = true ∧
    kept = floor ++ rest ∧ left = under ++ rest ∧ under.length < floor.length

section
variable {anchor base kept left : List Text} {part : Text}

theorem last_append {names : List Text} (h : names.getLast?.any endsWithColon = true) :
    ∃ last, (anchor ++ names).getLast? = some last ∧ endsWithColon last = true := by
  obtain rfl | ⟨before, last, rfl⟩ := List.eq_nil_or_concat' names
  · cases h
  · rw [List.getLast?_concat] at h
    refine ⟨last, ?_, by simpa using h⟩
    rw [← append_assoc, List.getLast?_concat]

theorem step_dots_floor {names : List Text} (h : names.getLast?.any endsWithColon = true) :
    step (anchor ++ names) DOTS = anchor ++ names := by
  obtain ⟨last, hlast, hcolon⟩ := @last_append anchor names h
  rw [step, if_neg (by decide), if_pos rfl, hlast, if_neg (by simp [hcolon])]

theorem Floored.step (h : Floored base kept left) (hpart : ∀ c ∈ part, isSep c = false) :
    ∃ kept', Paths.step (anchor ++ kept) part = anchor ++ kept' ∧
      Floored base kept' (move left part) := by
  obtain ⟨floor, rest, under, hbase, hcolon, rfl, rfl, hless⟩ := h.floor
  have hcomps := h.comps
  by_cases hdot : part = [] ∨ part = DOT
  · refine ⟨floor ++ rest, by rw [Paths.step, if_pos hdot], ?_⟩
    rw [move, if_pos hdot]
    exact h
  by_cases hdots : part = DOTS
  · subst hdots
    have hmove : ∀ names, move names DOTS = names.dropLast := fun names => by
      rw [move, if_neg hdot, if_pos rfl]
    obtain rfl | ⟨rest, last, rfl⟩ := List.eq_nil_or_concat' rest
    -- at the floor itself
    · rw [append_nil] at hcomps ⊢
      refine ⟨floor, step_dots_floor hcolon, hcomps, floor, [], under.dropLast, hbase, hcolon,
        (append_nil _).symm, ?_, ?_⟩
      · rw [hmove, append_nil, append_nil]
      · rw [List.length_dropLast]
        omega
    · have hdrop : (under ++ (rest ++ [last])).dropLast = under ++ rest := by
        rw [← append_assoc, dropLast_concat]
      rw [hmove, hdrop]
      cases hlast : endsWithColon last with
      | true =>
        -- another floor, above it
        have hcolon' : (floor ++ (rest ++ [last])).getLast?.any endsWithColon = true := by
          rw [← append_assoc, List.getLast?_concat]
          exact hlast
        refine ⟨_, step_dots_floor hcolon', hcomps, floor ++ (rest ++ [last]), [], under ++ rest,
          hbase.trans (prefix_append _ _), hcolon', (append_nil _).symm,
          (append_nil _).symm, ?_⟩
        simp only [length_append, length_singleton]
        omega
      | false =>
        -- a name above the floor goes from both
        refine ⟨floor ++ rest, ?_, ?_, floor, rest, under, hbase, hcolon, rfl, rfl, hless⟩
        · have hassoc : anchor ++ (floor ++ (rest ++ [last])) =
              (anchor ++ (floor ++ rest)) ++ [last] := by simp
          rw [hassoc, Paths.step, if_neg hdot, if_pos rfl, List.getLast?_concat,
            if_pos (by simp [hlast]), dropLast_concat]
        · intro name hname
          refine hcomps name ?_
          rw [← append_assoc]
          exact mem_append_left _ hname
  -- a name goes on top of both
  · obtain ⟨hnil, hone⟩ := not_or.mp hdot
    have hproper : Proper part := ⟨hnil, hone, hdots⟩
    refine ⟨floor ++ (rest ++ [part]), ?_, ?_, floor, rest ++ [part], under, hbase, hcolon, rfl, ?_,
      hless⟩
    · rw [step_of_proper hproper]
      simp
    · intro name hname
      rw [← append_assoc] at hname
      obtain hname | hname := mem_snoc.mp hname
      · exact hcomps name hname
      · rw [hname]
        exact ⟨hproper, hpart⟩
    · rw [move_of_proper hproper, append_assoc]

theorem Floored.walk {parts : List Text} (h : Floored base kept left)
    (hparts : ∀ part ∈ parts, ∀ c ∈ part, isSep c = false) :
    ∃ kept', parts.foldl Paths.step (anchor ++ kept) = anchor ++ kept' ∧
      Floored base kept' (walk left parts) := by
  induction parts generalizing kept left with
  | nil => exact ⟨kept, rfl, h⟩
  | cons part parts ih =>
    obtain ⟨kept', hstep, hfloored⟩ := @Floored.step anchor _ _ _ part h
      (hparts part mem_cons_self)
    rw [foldl_cons, hstep]
    exact ih hfloored fun other ho => hparts other (mem_cons_of_mem _ ho)

theorem Floored.shorter (h : Floored base kept left) : left.length < kept.length := by
  obtain ⟨floor, rest, under, -, -, rfl, rfl, hless⟩ := h.floor
  rw [length_append, length_append]
  omega

theorem Floored.base_prefix (h : Floored base kept left) : base <+: kept := by
  obtain ⟨floor, rest, under, hbase, -, rfl, -, -⟩ := h.floor
  exact hbase.trans (prefix_append _ _)

end

theorem sameAs_self (root : List Text) (a : Text) : sameAs root a a = true := by
  unfold sameAs
  split
  · exact beq_self_eq_true _
  · exact beq_self_eq_true a

theorem inside_of_start {root full : List Text} (h : root <+: full) : Inside root full := by
  have hzip := (@map_prefix_iff Text Text id root full).mp (by simpa using h)
  refine ⟨hzip.1, all_eq_true.mpr fun ⟨a, b⟩ hab => ?_⟩
  obtain rfl : a = b := hzip.2 (a, b) hab
  exact sameAs_self root a

section
variable {p : Platform} {cwd path : Text} {dir : Place} {before after : List Text}

/-- Inside the directory, a `..` taken at a name that ends in a colon makes the answer wrong. -/
theorem floor_wrong (hdir : p.directory cwd = some dir) (hcwd : p.Alike cwd)
    (hsteady : steady dir.anchor [] (p.read cwd).2 = true) (halike : p.Alike path)
    (hread : p.read path = (.relative, before ++ DOTS :: after))
    (hbefore : steady dir.anchor dir.comps before = true)
    (hinside : dir.comps <+: walk dir.comps before)
    (hcolon : (walk dir.comps before).getLast?.any endsWithColon = true) :
    ¬ Right p cwd dir path (workspaceRelative path (some cwd)) := by
  have hparts : ∀ part ∈ before ++ DOTS :: after, ∀ c ∈ part, isSep c = false := by
    have := read_no_sep halike
    rwa [hread] at this
  have hcomps : ∀ name ∈ walk dir.comps before, Comp name :=
    walk_comps (directory_comps hcwd hdir) fun part hpart =>
      hparts part (mem_append_left _ hpart)
  have hfloored : Floored (walk dir.comps before) (walk dir.comps before)
      (walk dir.comps before).dropLast := by
    refine ⟨hcomps, walk dir.comps before, [], (walk dir.comps before).dropLast, prefix_rfl,
      hcolon, (append_nil _).symm, (append_nil _).symm, ?_⟩
    cases hwalk : walk dir.comps before with
    | nil => simp [hwalk] at hcolon
    | cons name names => simp
  obtain ⟨kept, hkept, hfloored⟩ := @Floored.walk dir.anchor _ _ _ after hfloored fun part hpart =>
    hparts part (mem_append_right _ (mem_cons_of_mem _ hpart))
  -- what the code has, and where the path leads
  obtain ⟨habsolute, hnormalized⟩ := normalized_relative halike (by rw [hread])
    (dir.anchor ++ dir.comps)
  have hfull : (if isAbsolute path then normalized [] path
      else normalized (dir.anchor ++ dir.comps) path) = dir.anchor ++ kept := by
    rw [if_neg (by simp [habsolute]), hnormalized, hread]
    rw [foldl_append, foldl_step hbefore, foldl_cons, step_dots_floor hcolon]
    exact hkept
  have hplace : p.place dir path =
      some ⟨dir.anchor, walk (walk dir.comps before).dropLast after⟩ := by
    rw [Platform.place, hread]
    dsimp only
    rw [walk_append]
    rfl
  have hunder : dir.comps <+: kept := hinside.trans hfloored.base_prefix
  have hanswer := workspaceRelative_eq (normalized_directory hcwd hdir hsteady) hfull
  rw [if_pos (inside_of_start ((prefix_append_right_inj _).mpr hunder))] at hanswer
  have hdrop : (dir.anchor ++ kept).drop (dir.anchor ++ dir.comps).length =
      kept.drop dir.comps.length := by
    rw [length_append, drop_append, Nat.add_sub_cancel_left,
      drop_eq_nil_of_le (by omega), nil_append]
  rw [hdrop] at hanswer
  have hjoin : dir.comps ++ kept.drop dir.comps.length = kept := by
    obtain ⟨rest, rfl⟩ := hunder
    rw [drop_left]
  obtain ⟨hanchor, hwalk⟩ := directory_some hdir
  obtain ⟨-, hjoined⟩ := @textOf_joined p cwd dir.anchor hanchor (kept.drop dir.comps.length)
    fun name hname => hfloored.comps name (List.mem_of_mem_drop hname)
  rw [← hwalk, hjoin] at hjoined
  intro hright
  by_cases hlies : p.LiesIn ⟨dir.anchor, walk (walk dir.comps before).dropLast after⟩ dir
  · obtain ⟨text, htext, -, joined, hjoined', -, hsame⟩ := hright.inside _ hplace hlies
    rw [hanswer] at htext
    cases (Prod.mk.inj htext).1
    cases hjoined.symm.trans hjoined'
    have hlen := congrArg List.length hsame
    rw [Platform.keys, Platform.keys, length_map, length_map] at hlen
    have := hfloored.shorter
    dsimp only at hlen
    omega
  · have hout := hright.outside fun other hother => by
      cases hplace.symm.trans hother
      exact hlies
    rw [hanswer] at hout
    cases hout

end

def InDirectory (p : Platform) (dir : Place) (path : Text) : Prop :=
  ∃ at_, p.place dir path = some at_ ∧ p.LiesIn at_ dir

theorem Right.given {p : Platform} {cwd path text : Text} {dir : Place} {outside : Bool}
    (h : Right p cwd dir path (workspaceRelative path (some cwd)))
    (hgiven : workspaceRelative path (some cwd) = (some text, outside)) :
    InDirectory p dir path := by
  by_contra hno
  have hout := h.outside fun at_ hplace hlies => hno ⟨at_, hplace, hlies⟩
  rw [hgiven] at hout
  cases hout

/-- **Reported paths**: where a directory and a path are read alike, each `..` stops at an anchor
    exactly where it stops at a colon, and case counts as on the platform up to the first name that
    differs, the answer is right, and an adapter that gives a path for a tool's file gives it for one
    in the directory. Where a `..` is taken, inside the directory, at a name that ends in a colon, the
    answer is wrong; and so it is where the case of one name alone decides. -/
theorem reported_paths_stay_inside (p : Platform) (cwd path : Text) (dir : Place)
    (hdir : p.directory cwd = some dir) :
    (Plain p cwd dir path →
      Right p cwd dir path (workspaceRelative path (some cwd)) ∧
        (∀ filePath notebookPath text outside, (filePath.or notebookPath).join = some path →
          toolPath filePath notebookPath (some cwd) = (some text, outside) →
          InDirectory p dir path) ∧
        ∀ workdir directory text outside, workdir.or directory = some cwd →
          relative (some path) workdir directory = (some text, outside) →
          InDirectory p dir path) ∧
      (∀ before after, p.Alike cwd → steady dir.anchor [] (p.read cwd).2 = true → p.Alike path →
        p.read path = (.relative, before ++ DOTS :: after) →
        steady dir.anchor dir.comps before = true → dir.comps <+: walk dir.comps before →
        (walk dir.comps before).getLast?.any endsWithColon = true →
        ¬ Right p cwd dir path (workspaceRelative path (some cwd))) ∧
      ∀ at_ before one after, Level p cwd dir path → p.place dir path = some at_ →
        at_.anchor.length = dir.anchor.length →
        (dir.anchor ++ dir.comps).length ≤ (at_.anchor ++ at_.comps).length →
        (dir.anchor ++ dir.comps).zip (at_.anchor ++ at_.comps) = before ++ one :: after →
        (∀ ab ∈ before ++ after, sameAs (dir.anchor ++ dir.comps) ab.1 ab.2 = true ∧
          p.key ab.1 = p.key ab.2) →
        ¬ (sameAs (dir.anchor ++ dir.comps) one.1 one.2 = true ↔ p.key one.1 = p.key one.2) →
        ¬ Right p cwd dir path (workspaceRelative path (some cwd)) := by
  refine ⟨?_, ?_, ?_⟩
  · intro hplain
    have hright := plain_right hplain hdir
    refine ⟨hright, ?_, ?_⟩
    · intro filePath notebookPath text outside hpath hgiven
      rw [toolPath, hpath] at hgiven
      exact hright.given hgiven
    · intro workdir directory text outside hcwd hgiven
      rw [relative, hcwd] at hgiven
      exact hright.given hgiven
  · intro before after hcwd hsteady halike hread hbefore hinside hcolon
    exact floor_wrong hdir hcwd hsteady halike hread hbefore hinside hcolon
  · intro at_ before one after hlevel hplace hanchor hlen hzip hothers hone
    exact case_wrong hlevel hdir hplace hanchor hlen hzip hothers hone

def repo : Text := "/repo".toList
def repoPlace : Place := ⟨[], ["repo".toList]⟩

def share : Text := "\\\\server\\share\\repo".toList
def sharePlace : Place := ⟨["server".toList, "share".toList], ["repo".toList]⟩

theorem reported_paths_stay_inside_repo :
    Right .unix repo repoPlace "../repo/./src/a.rs".toList
        (workspaceRelative "../repo/./src/a.rs".toList (some repo)) ∧
      ¬ Right .unix repo repoPlace "ab:/../x".toList
        (workspaceRelative "ab:/../x".toList (some repo)) ∧
      Right (.windows Char.toLower) share sharePlace "\\\\server\\other\\REPO\\x".toList
        (workspaceRelative "\\\\server\\other\\REPO\\x".toList (some share)) ∧
      ¬ Right (.windows Char.toLower) share sharePlace "\\\\server\\share\\REPO\\x".toList
        (workspaceRelative "\\\\server\\share\\REPO\\x".toList (some share)) := by
  have hshare : (Platform.windows Char.toLower).directory share = some sharePlace := by
    decide +kernel
  have halike : ∀ path parts name, readWindows path = (.share "server".toList name, parts) →
      Proper name → (Platform.windows Char.toLower).Alike path := by
    intro path parts name hread hname
    rw [Platform.Alike, hread]
    exact ⟨⟨⟨by decide +kernel, by decide +kernel, by decide +kernel⟩, by decide +kernel⟩, hname⟩
  have hproper : Proper "share".toList ∧ Proper "other".toList :=
    ⟨⟨by decide +kernel, by decide +kernel, by decide +kernel⟩,
      by decide +kernel, by decide +kernel, by decide +kernel⟩
  have hlevel : ∀ path parts name, readWindows path = (.share "server".toList name, parts) →
      Proper name → steady ["server".toList, name] [] parts = true →
      Level (.windows Char.toLower) share sharePlace path := by
    intro path parts name hread hname hsteady
    refine ⟨halike share ["repo".toList] "share".toList (by decide +kernel) hproper.1,
      halike path parts name hread hname, by decide +kernel, ?_, ?_⟩
    · intro hrelative
      rw [Platform.read, hread] at hrelative
      cases hrelative
    · intro anchor hanchor
      rw [Platform.read, hread] at hanchor ⊢
      cases hanchor
      exact hsteady
  refine ⟨((reported_paths_stay_inside .unix repo _ repoPlace (by decide +kernel)).1 ?_).1, ?_, ?_,
    ?_⟩
  · refine ⟨⟨?_, ?_, ?_, ?_, ?_⟩, ?_⟩
    · exact ⟨by decide +kernel, fun h => by cases h⟩
    · exact ⟨by decide +kernel, fun _ => by decide +kernel⟩
    · decide +kernel
    · exact fun _ => by decide +kernel
    · intro anchor h
      cases h
    · intro at_ hplace _
      cases hplace
      exact ⟨by decide +kernel, fun _ => trivial⟩
  · exact (reported_paths_stay_inside .unix repo _ repoPlace (by decide +kernel)).2.1
      ["ab:".toList] ["x".toList] ⟨by decide +kernel, fun h => by cases h⟩ (by decide +kernel)
      ⟨by decide +kernel, fun _ => by decide +kernel⟩ (by decide +kernel) (by decide +kernel)
      (by decide +kernel) (by decide +kernel)
  -- the comparison ends at the second name, before the one whose case counts
  · refine ((reported_paths_stay_inside _ share _ sharePlace hshare).1 ⟨hlevel _
      ["REPO".toList, "x".toList] "other".toList (by decide +kernel) hproper.2 (by decide +kernel),
      ?_⟩).1
    intro at_ hplace _
    cases hplace
    refine ⟨by decide +kernel, fun _ => ⟨by decide +kernel, fun hsame => ?_⟩⟩
    exact absurd hsame (by decide +kernel)
  · exact (reported_paths_stay_inside _ share _ sharePlace hshare).2.2
      ⟨["server".toList, "share".toList], ["REPO".toList, "x".toList]⟩
      [("server".toList, "server".toList), ("share".toList, "share".toList)]
      ("repo".toList, "REPO".toList) [] (hlevel _ ["REPO".toList, "x".toList] "share".toList
        (by decide +kernel) hproper.1 (by decide +kernel)) (by decide +kernel) (by decide +kernel)
      (by decide +kernel) (by decide +kernel) (by decide +kernel) (by decide +kernel)

/-- A path that climbs out of a Unix directory past a name that ends in a colon, or past one with a
    backslash, is given as one inside it; so is one that climbs from where a drive was left. -/
theorem climbing_paths_are_given :
    workspaceRelative "ab:/../../etc/passwd".toList (some repo) =
        (some "ab:/etc/passwd".toList, false) ∧
      Platform.unix.place repoPlace "ab:/../../etc/passwd".toList =
        some ⟨[], ["etc".toList, "passwd".toList]⟩ ∧
      ¬ Platform.unix.LiesIn ⟨[], ["etc".toList, "passwd".toList]⟩ repoPlace ∧
      workspaceRelative "x\\y/../../secret".toList (some repo) = (some "secret".toList, false) ∧
      Platform.unix.place repoPlace "x\\y/../../secret".toList = some ⟨[], ["secret".toList]⟩ ∧
      ¬ Platform.unix.LiesIn ⟨[], ["secret".toList]⟩ repoPlace ∧
      workspaceRelative "C:..\\..\\secret".toList (some "C:\\repo".toList) =
        (some "secret".toList, false) ∧
      (Platform.windows Char.toLower).place ⟨["C:".toList], ["repo".toList]⟩
        "C:..\\..\\secret".toList = some ⟨["C:".toList], ["secret".toList]⟩ := by
  decide +kernel

end Yardsort.Activity.Paths
