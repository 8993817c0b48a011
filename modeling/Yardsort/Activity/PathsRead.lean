import Yardsort.Activity.Paths

/- How a path is read: the code's steps where they are the platform's, the names that are left, and
   what is read once such names are joined to a directory. -/
namespace Yardsort.Activity.Paths
open Yardsort.Lib

section
variable {anchor comps parts : List Text} {part : Text}

theorem endsWithColon_of_getLast {last : Text} (h : (anchor ++ comps).getLast? = some last)
    (hs : (anchor ++ comps).getLast?.all (fun last => endsWithColon last == comps.isEmpty) = true) :
    endsWithColon last = comps.isEmpty := by
  rw [h] at hs
  simpa using hs

theorem step_eq_move (h : part = DOTS →
    (anchor ++ comps).getLast?.all (fun last => endsWithColon last == comps.isEmpty) = true) :
    step (anchor ++ comps) part = anchor ++ move comps part := by
  unfold step move
  by_cases hdot : part = [] ∨ part = DOT
  · rw [if_pos hdot, if_pos hdot]
  · rw [if_neg hdot, if_neg hdot]
    by_cases hdots : part = DOTS
    · rw [if_pos hdots, if_pos hdots]
      have hfloor := h hdots
      obtain rfl | ⟨before, last, rfl⟩ := List.eq_nil_or_concat' comps
      · cases hlast : (anchor ++ []).getLast? with
        | none => simp
        | some last =>
          have := endsWithColon_of_getLast hlast hfloor
          simp [this]
      · have hlast : (anchor ++ (before ++ [last])).getLast? = some last := by
          rw [← append_assoc, List.getLast?_concat]
        have hcolon : endsWithColon last = false :=
          (endsWithColon_of_getLast hlast hfloor).trans (by cases before <;> rfl)
        rw [hlast, if_pos (by simp [hcolon])]
        rw [← append_assoc, dropLast_concat, dropLast_concat]
    · rw [if_neg hdots, if_neg hdots, append_assoc]

theorem foldl_step (h : steady anchor comps parts = true) :
    parts.foldl step (anchor ++ comps) = anchor ++ walk comps parts := by
  induction parts generalizing comps with
  | nil => rfl
  | cons part parts ih =>
    rw [steady, Bool.and_eq_true, Bool.or_eq_true, decide_eq_true_eq] at h
    obtain ⟨hfloor, hrest⟩ := h
    have hstep : step (anchor ++ comps) part = anchor ++ move comps part := by
      apply step_eq_move
      intro hdots
      exact hfloor.resolve_left (fun hne => hne hdots)
    rw [foldl_cons, hstep, ih hrest]
    rfl

theorem step_of_proper (h : Proper part) : step comps part = comps ++ [part] := by
  rw [step, if_neg (not_or.mpr ⟨h.1, h.2.1⟩), if_neg h.2.2]

theorem move_of_proper (h : Proper part) : move comps part = comps ++ [part] := by
  rw [move, if_neg (not_or.mpr ⟨h.1, h.2.1⟩), if_neg h.2.2]

theorem walk_append (comps parts rest : List Text) :
    walk comps (parts ++ rest) = walk (walk comps parts) rest := foldl_append

theorem walk_proper (h : ∀ part ∈ parts, Proper part) : walk comps parts = comps ++ parts := by
  induction parts generalizing comps with
  | nil => exact (append_nil comps).symm
  | cons part parts ih =>
    have hpart := @move_of_proper comps part (h part mem_cons_self)
    have hrest := @ih (comps ++ [part]) fun other ho => h other (mem_cons_of_mem _ ho)
    rw [walk, foldl_cons, hpart]
    rw [walk] at hrest
    rw [hrest, append_assoc]
    rfl

end

/-- A name as both read it: with no separator in it, and none of the names that are dropped or
    resolved. -/
def Comp (name : Text) : Prop := Proper name ∧ ∀ c ∈ name, isSep c = false

theorem walk_comps {comps parts : List Text} (hcomps : ∀ name ∈ comps, Comp name)
    (hparts : ∀ part ∈ parts, ∀ c ∈ part, isSep c = false) :
    ∀ name ∈ walk comps parts, Comp name := by
  induction parts generalizing comps with
  | nil => exact hcomps
  | cons part parts ih =>
    refine ih ?_ fun other ho => hparts other (mem_cons_of_mem _ ho)
    intro name hname
    unfold move at hname
    split at hname
    · exact hcomps name hname
    rename_i hdot
    split at hname
    · exact hcomps name (List.mem_of_mem_dropLast hname)
    rename_i hdots
    obtain hname | hname := mem_snoc.mp hname
    · exact hcomps name hname
    · rw [hname]
      obtain ⟨hnil, hone⟩ := not_or.mp hdot
      exact ⟨⟨hnil, hone, hdots⟩, hparts part mem_cons_self⟩

/-! ## Reading alike -/

section
variable {p : Platform} {path : Text}

theorem splitOnP_congr {f g : Char → Bool} {text : Text} (h : ∀ c ∈ text, f c = g c) :
    text.splitOnP f = text.splitOnP g := by
  induction text with
  | nil => rfl
  | cons c text ih =>
    have hc := h c mem_cons_self
    rw [splitOnP_cons_eq_if_modifyHead, splitOnP_cons_eq_if_modifyHead, hc,
      ih fun d hd => h d (mem_cons_of_mem _ hd)]

theorem splitOnP_slash {text : Text} (h : '\\' ∉ text) :
    text.splitOnP isSep = text.splitOnP (· == '/') := by
  apply splitOnP_congr
  intro c hc
  have hne : c ≠ '\\' := by
    rintro rfl
    exact h hc
  simp [isSep, hne]

theorem slash_sep (p : Platform) : p.sep '/' = true := by
  cases p <;> rfl

theorem isSep_of_sep {c : Char} (h : isSep c = false) : p.sep c = false := by
  cases p with
  | unix =>
    simp only [isSep, Bool.or_eq_false_iff] at h
    exact h.1
  | windows fold => exact h

inductive WindowsRead (path : Text) : Start × List Text → Prop where
  | drive (c s : Char) (after : Text) (hc : c.isAlpha = true) (hs : isSep s = true)
      (h : path = c :: ':' :: s :: after) :
      WindowsRead path (.drive [c, ':'], after.splitOnP isSep)
  | share (c d : Char) (rest server name : Text) (parts : List Text) (hc : isSep c = true)
      (hd : isSep d = true) (h : path = c :: d :: rest)
      (hsplit : rest.splitOnP isSep = server :: name :: parts) :
      WindowsRead path (.share server name, parts)
  | relative : WindowsRead path (.relative, path.splitOnP isSep)
  | other (start : Start) (parts : List Text)
      (h : start = .top ∨ start = .nowhere ∨ ∃ name, start = .onDrive name) :
      WindowsRead path (start, parts)

theorem windows_read (path : Text) : WindowsRead path (readWindows path) := by
  match path with
  | [] => exact .relative
  | [c] =>
    unfold readWindows
    dsimp only
    split
    · exact .other _ _ (.inl rfl)
    · exact .relative
  | c :: d :: rest =>
    unfold readWindows
    dsimp only
    split
    · rename_i hdrive
      obtain ⟨hc, rfl⟩ := hdrive
      cases rest with
      | nil => exact .other _ _ (.inr (.inr ⟨_, rfl⟩))
      | cons s after =>
        dsimp only
        split
        · rename_i hs
          exact .drive c s after hc hs rfl
        · exact .other _ _ (.inr (.inr ⟨_, rfl⟩))
    · split
      · rename_i hseps
        obtain ⟨hc, hd⟩ := hseps
        split
        · rename_i server name parts hsplit
          exact .share c d rest server name parts hc hd rfl hsplit
        · exact .other _ _ (.inr (.inl rfl))
      · split
        · exact .other _ _ (.inl rfl)
        · exact .relative

theorem letter {c : Char} (h : c.isAlpha = true) : c.utf8Size = 1 ∧ isSep c = false := by
  have hval : c.val ≤ 122 := by
    simp only [Char.isAlpha, Char.isUpper, Char.isLower, ge_iff_le, Bool.or_eq_true,
      Bool.and_eq_true, decide_eq_true_eq] at h
    obtain h | h := h
    · exact UInt32.le_trans h.2 (by decide)
    · exact h.2
  refine ⟨if_pos (UInt32.le_trans hval (by decide)), ?_⟩
  rw [isSep, Bool.or_eq_false_iff, beq_eq_false_iff_ne, beq_eq_false_iff_ne]
  constructor
  · rintro rfl
    exact absurd h (by decide)
  · rintro rfl
    exact absurd h (by decide)

theorem isAbsolute_sep {c : Char} {rest : Text} (h : isSep c = true) :
    isAbsolute (c :: rest) = true := by
  simp only [isSep, Bool.or_eq_true, beq_iff_eq] at h
  obtain rfl | rfl := h <;> rfl

theorem isAbsolute_drive {c s : Char} {after : Text} (hc : c.isAlpha = true) (hs : isSep s = true) :
    isAbsolute (c :: ':' :: s :: after) = true := by
  obtain ⟨hsize, hsep⟩ := letter hc
  unfold isAbsolute
  split
  · rfl
  · rfl
  · rename_i h
    simp only [List.cons.injEq] at h
    obtain ⟨rfl, -, rfl, -⟩ := h
    simp [hsize, hs]
  · rename_i h
    exact absurd rfl (h c s after)

theorem normalized_anchored {anchor : List Text} (halike : p.Alike path)
    (h : (p.read path).1.anchor = some anchor) :
    isAbsolute path = true ∧ normalized [] path = (p.read path).2.foldl step anchor := by
  cases p with
  | unix =>
    cases path with
    | nil => cases h
    | cons c rest =>
      rw [Platform.read, readUnix] at h ⊢
      by_cases hc : c = '/'
      · subst hc
        rw [if_pos rfl] at h ⊢
        cases h
        have hrest : '\\' ∉ rest := fun hmem => halike.1 (mem_cons_of_mem _ hmem)
        have hsplit : ('/' :: rest).splitOnP isSep = [] :: rest.splitOnP (· == '/') := by
          rw [splitOnP_cons_eq_if_modifyHead, if_pos (show isSep '/' = true from rfl),
            splitOnP_slash hrest]
        refine ⟨rfl, ?_⟩
        rw [normalized, hsplit]
        rfl
      · rw [if_neg hc] at h
        cases h
  | windows fold =>
    have hread := windows_read path
    rw [Platform.Alike] at halike
    rw [Platform.read] at h ⊢
    generalize readWindows path = read at hread halike h ⊢
    cases hread with
    | drive c s after hc hs hpath =>
      cases h
      have hfirst : ∀ x ∈ [c, ':'], isSep x = false := by
        intro x hx
        obtain rfl | hx := mem_cons.mp hx
        · exact (letter hc).2
        · rw [mem_singleton.mp hx]
          rfl
      have hsplit : path.splitOnP isSep = [c, ':'] :: after.splitOnP isSep := by
        rw [hpath]
        exact splitOnP_append_cons_of_forall_mem hfirst s hs after
      refine ⟨by rw [hpath]; exact isAbsolute_drive hc hs, ?_⟩
      rw [normalized, hsplit, foldl_cons, step_of_proper ⟨by simp, by simp [DOT], by simp [DOTS]⟩]
      rfl
    | share c d rest server name parts hc hd hpath hsplit =>
      cases h
      obtain ⟨⟨hserver, -⟩, hname⟩ := halike
      have hparts : path.splitOnP isSep = [] :: [] :: server :: name :: parts := by
        rw [hpath, splitOnP_cons_eq_if_modifyHead, if_pos hc,
          splitOnP_cons_eq_if_modifyHead, if_pos hd, hsplit]
      refine ⟨by rw [hpath]; exact isAbsolute_sep hc, ?_⟩
      rw [normalized, hparts]
      rw [foldl_cons, foldl_cons, foldl_cons, foldl_cons]
      have hnil : step [] [] = [] := rfl
      rw [hnil, hnil, step_of_proper hserver, step_of_proper hname]
      rfl
    | relative => cases h
    | other start parts hstart =>
      obtain rfl | rfl | ⟨name, rfl⟩ := hstart <;> cases h

theorem normalized_relative (halike : p.Alike path) (h : (p.read path).1 = .relative)
    (base : List Text) :
    isAbsolute path = false ∧ normalized base path = (p.read path).2.foldl step base := by
  cases p with
  | unix =>
    refine ⟨halike.2 h, ?_⟩
    rw [normalized, splitOnP_slash halike.1, Platform.read]
    cases path with
    | nil => rfl
    | cons c rest =>
      rw [Platform.read, readUnix] at h
      rw [readUnix]
      split
      · rename_i hc
        rw [if_pos hc] at h
        cases h
      · rfl
  | windows fold =>
    have hread := windows_read path
    rw [Platform.Alike] at halike
    rw [Platform.read] at h ⊢
    generalize readWindows path = read at hread halike h ⊢
    cases hread with
    | drive => cases h
    | share => cases h
    | relative => exact ⟨halike, rfl⟩
    | other start parts hstart =>
      obtain rfl | rfl | ⟨name, rfl⟩ := hstart <;> cases h

theorem Platform.Alike.start (halike : p.Alike path) :
    (p.read path).1 = .relative ∨ ∃ anchor, (p.read path).1.anchor = some anchor := by
  cases p with
  | unix =>
    cases path with
    | nil => exact .inl rfl
    | cons c rest =>
      rw [Platform.read, readUnix]
      split
      · exact .inr ⟨[], rfl⟩
      · exact .inl rfl
  | windows fold =>
    have hread := windows_read path
    rw [Platform.Alike] at halike
    rw [Platform.read]
    generalize readWindows path = read at hread halike ⊢
    cases hread with
    | drive c => exact .inr ⟨[[c, ':']], rfl⟩
    | share c d rest server name => exact .inr ⟨[server, name], rfl⟩
    | relative => exact .inl rfl
    | other start parts hstart =>
      obtain rfl | rfl | ⟨name, rfl⟩ := hstart <;> exact halike.elim

theorem read_no_sep (halike : p.Alike path) :
    ∀ part ∈ (p.read path).2, ∀ c ∈ part, isSep c = false := by
  cases p with
  | unix =>
    cases path with
    | nil => simp [Platform.read, readUnix]
    | cons c rest =>
      have hrest : '\\' ∉ rest := fun hmem => halike.1 (mem_cons_of_mem _ hmem)
      rw [Platform.read, readUnix]
      split
      · rw [← splitOnP_slash hrest]
        exact Text.splitOnP_no_sep isSep rest
      · rw [← splitOnP_slash halike.1]
        exact Text.splitOnP_no_sep isSep _
  | windows fold =>
    have hread := windows_read path
    rw [Platform.Alike] at halike
    rw [Platform.read]
    generalize readWindows path = read at hread halike ⊢
    cases hread with
    | drive c s after => exact Text.splitOnP_no_sep isSep after
    | share c d rest server name parts hc hd hpath hsplit =>
      intro part hpart
      refine Text.splitOnP_no_sep isSep rest part ?_
      rw [hsplit]
      exact mem_cons_of_mem _ (mem_cons_of_mem _ hpart)
    | relative => exact Text.splitOnP_no_sep isSep path
    | other start parts hstart =>
      obtain rfl | rfl | ⟨name, rfl⟩ := hstart <;> exact halike.elim

end

theorem readWindows_drive {c s : Char} {after : Text} (hc : c.isAlpha = true)
    (hs : isSep s = true) :
    readWindows (c :: ':' :: s :: after) = (.drive [c, ':'], after.splitOnP isSep) := by
  simp [readWindows, hc, hs]

theorem readWindows_share {c d : Char} {rest server name : Text} {parts : List Text}
    (hc : isSep c = true) (hd : isSep d = true)
    (h : rest.splitOnP isSep = server :: name :: parts) :
    readWindows (c :: d :: rest) = (.share server name, parts) := by
  have hletter : ¬ (c.isAlpha = true ∧ d = ':') := by
    intro hboth
    rw [(letter hboth.1).2] at hc
    cases hc
  simp [readWindows, hletter, hc, hd, h]

section
variable {p : Platform} {cwd : Text} {anchor : List Text}

theorem read_joined (h : (p.read cwd).1.anchor = some anchor) (text : Text) :
    p.read (cwd ++ '/' :: text) = ((p.read cwd).1, (p.read cwd).2 ++ text.splitOnP p.sep) := by
  cases p with
  | unix =>
    cases cwd with
    | nil => cases h
    | cons c rest =>
      by_cases hc : c = '/'
      · subst hc
        have hsplit := @splitOnP_append_cons _ (· == '/') rest text '/' rfl
        simp only [Platform.read, readUnix, cons_append, if_true, hsplit]
        rfl
      · rw [Platform.read, readUnix, if_neg hc] at h
        cases h
  | windows fold =>
    have hread := windows_read cwd
    rw [Platform.read] at h ⊢
    rw [Platform.read]
    generalize hsame : readWindows cwd = read at hread h ⊢
    cases hread with
    | drive c s after hc hs hpath =>
      rw [hpath, cons_append, cons_append, cons_append, readWindows_drive hc hs,
        splitOnP_append_cons after text (show isSep '/' = true from rfl)]
      rfl
    | share c d rest server name parts hc hd hpath hsplit =>
      have hmore : (rest ++ '/' :: text).splitOnP isSep =
          server :: name :: (parts ++ text.splitOnP isSep) := by
        rw [splitOnP_append_cons rest text (show isSep '/' = true from rfl), hsplit]
        rfl
      rw [hpath, cons_append, cons_append, readWindows_share hc hd hmore]
      rfl
    | relative => cases h
    | other start parts hstart =>
      obtain rfl | rfl | ⟨name, rfl⟩ := hstart <;> cases h

theorem directory_eq (h : (p.read cwd).1.anchor = some anchor) :
    p.directory cwd = some ⟨anchor, walk [] (p.read cwd).2⟩ := by
  rw [Platform.directory]
  dsimp only
  rw [h]
  rfl

def textOf (names : List Text) : Text :=
  if ['/'].intercalate names = [] then DOT else ['/'].intercalate names

theorem intercalate_ne_nil {names : List Text} (hne : names ≠ [])
    (h : ∀ name ∈ names, Comp name) : ['/'].intercalate names ≠ [] := by
  cases names with
  | nil => exact absurd rfl hne
  | cons name names =>
    have hname := (h name mem_cons_self).1.1
    cases names with
    | nil =>
      rw [intercalate_singleton]
      exact hname
    | cons next names =>
      rw [intercalate_cons_cons]
      simp

theorem textOf_parts {names : List Text} (h : ∀ name ∈ names, Comp name) :
    (textOf names).splitOnP p.sep = if names = [] then [DOT] else names := by
  by_cases hne : names = []
  · subst hne
    rw [if_pos rfl, textOf, if_pos List.intercalate_nil]
    apply List.splitOnP_eq_singleton
    intro c hc
    rw [mem_singleton.mp hc]
    exact isSep_of_sep rfl
  · rw [if_neg hne, textOf, if_neg (intercalate_ne_nil hne h)]
    exact Text.splitOnP_intercalate (slash_sep p) hne fun name hname c hc =>
      isSep_of_sep ((h name hname).2 c hc)

theorem textOf_joined (hanchor : (p.read cwd).1.anchor = some anchor) {names : List Text}
    (h : ∀ name ∈ names, Comp name) :
    DOTS ∉ (textOf names).splitOnP p.sep ∧
      p.directory (cwd ++ '/' :: textOf names) =
        some ⟨anchor, walk [] (p.read cwd).2 ++ names⟩ := by
  have hparts := textOf_parts (p := p) h
  have hread := read_joined hanchor (textOf names)
  have hjoined : (p.read (cwd ++ '/' :: textOf names)).1.anchor = some anchor := by
    rw [hread]
    exact hanchor
  rw [directory_eq hjoined, hread, hparts]
  rw [walk_append]
  by_cases hne : names = []
  · subst hne
    rw [if_pos rfl, append_nil]
    exact ⟨by decide, rfl⟩
  · rw [if_neg hne, walk_proper fun name hname => (h name hname).1]
    refine ⟨fun hmem => ?_, rfl⟩
    exact (h DOTS hmem).1.2.2 rfl

end

end Yardsort.Activity.Paths
