import Mathlib.Data.List.DropRight
import Mathlib.Data.List.Nodup
import Yardsort.Lib.JsonSize
import Yardsort.Lib.Text

/- The environment harnesses run in (`core/src/env.rs`): what the login shell's environment is
   printed as and read from, and what is taken out of an environment before it is handed on.

   An environment is the list of its entries, one for a name, whose order says nothing. -/
namespace Yardsort.Env
open Yardsort.Lib

abbrev Vars := List (String × String)

def BEGIN_WORD : Bytes := utf8 "YARDSORT-ENV-BEGIN"
def END_WORD : Bytes := utf8 "YARDSORT-ENV-END"

def marker (word : Bytes) : Bytes := 0 :: word ++ [0]

def printEnv (env : List (Bytes × Bytes)) : Bytes :=
  marker BEGIN_WORD ++ (env.flatMap fun (key, value) => key ++ 0x3d :: value ++ [0]) ++
    marker END_WORD

def find (needle : Bytes) : Bytes → Option Nat
  | [] => if needle = [] then some 0 else none
  | b :: rest =>
    if needle <+: b :: rest then some 0 else (find needle rest).map (· + 1)

/-- A fact about the throwaway shell, not about the user's environment. -/
def transient (key : String) : Bool := key ∈ ["_", "SHLVL", "PWD", "OLDPWD"]

def parseEntry (entry : Bytes) : Option (String × String) :=
  (fromUtf8 entry).bind fun entry =>
    (Text.cut ['='] entry.toList).bind fun (key, value) =>
      let key := String.ofList key
      if key ≠ "" ∧ !transient key then some (key, String.ofList value) else none

def Vars.get (vars : Vars) (name : String) : Option String :=
  (vars.find? fun var => var.1 = name).map (·.2)

def insert (vars : Vars) (entry : String × String) : Vars :=
  vars.filter (·.1 ≠ entry.1) ++ [entry]

/-- The variables printed between the markers, whatever was printed around them. -/
def parseDump (output : Bytes) : Option Vars :=
  (find (marker BEGIN_WORD) output).bind fun start =>
    let body := output.drop (start + (marker BEGIN_WORD).length)
    (find (marker END_WORD) body).bind fun stop =>
      let vars := (((body.take stop).splitOn 0).filterMap parseEntry).foldl insert []
      if vars = [] then none else some vars

/-- By which a coding agent tells its children that they run inside its session. -/
def FOREIGN_SESSION_MARKERS : List String :=
  ["CLAUDECODE", "CLAUDE_CODE_CHILD_SESSION", "CLAUDE_CODE_ENTRYPOINT", "CLAUDE_CODE_EXECPATH",
    "CLAUDE_CODE_MESSAGING_SOCKET", "CLAUDE_CODE_MESSAGING_TOKEN", "CLAUDE_CODE_SESSION_ATTENDED",
    "CLAUDE_CODE_SESSION_ID", "CLAUDE_PID"]

def APPIMAGE_RUNTIME_VARS : List String := ["APPDIR", "APPIMAGE", "ARGV0", "OWD"]

def APPIMAGE_GTK_HOOK_VARS : List String :=
  ["GDK_BACKEND", "GDK_PIXBUF_MODULE_FILE", "GIO_EXTRA_MODULES", "GSETTINGS_SCHEMA_DIR",
    "GTK_DATA_PREFIX", "GTK_EXE_PREFIX", "GTK_IM_MODULE_FILE", "GTK_PATH", "GTK_THEME"]

def withoutForeignSessions (vars : Vars) : Vars :=
  vars.filter fun var => var.1 ∉ FOREIGN_SESSION_MARKERS

def trimEndSlashes (dir : Text) : Text := dir.rdropWhile (· = '/')

def inAnAppimageMount (tmpdir : Text) (entry : Text) : Bool :=
  [trimEndSlashes tmpdir, "/tmp".toList].any fun dir =>
    dir ≠ [] && (dir ++ "/.mount_".toList).isPrefixOf entry

/-- The folder of the AppImage the environment is of. -/
def appdir (vars : Vars) : Option Text :=
  (((vars.get "APPDIR").filter fun _ => (vars.get "APPIMAGE").isSome).map fun dir =>
    trimEndSlashes dir.toList).filter (· ≠ [])

def inABundle (tmpdir : Text) (appdir : Option Text) (entry : Text) : Bool :=
  inAnAppimageMount tmpdir entry ||
    appdir.any fun dir => entry = dir || (dir ++ ['/']).isPrefixOf entry

def withoutBundle (tmpdir : Text) (appdir : Option Text) :
    String × String → Option (String × String)
  | (name, value) =>
    if appdir.isSome ∧ (name ∈ APPIMAGE_RUNTIME_VARS ∨ name ∈ APPIMAGE_GTK_HOOK_VARS) then none
    else if !(value.toList.splitOn ':').any (inABundle tmpdir appdir) then some (name, value)
    else
      let rest := (value.toList.splitOn ':').filter fun entry =>
        entry ≠ [] && !inABundle tmpdir appdir entry
      let value := [':'].intercalate rest
      if value = [] then none else some (name, String.ofList value)

def withoutAppimage (tmpdir : Text) (vars : Vars) : Vars :=
  vars.filterMap (withoutBundle tmpdir (appdir vars))

def cleaned (tmpdir : Text) (vars : Vars) : Vars :=
  withoutForeignSessions (withoutAppimage tmpdir vars)

variable {word before rest after : Bytes}

theorem parted_unique {α : Type} {sep : α} {a b x y : List α} (ha : sep ∉ a) (hb : sep ∉ b)
    (h : a ++ sep :: x = b ++ sep :: y) : a = b ∧ x = y := by
  induction a generalizing b with
  | nil =>
    cases b with
    | nil => exact ⟨rfl, (List.cons.inj h).2⟩
    | cons c b => exact absurd ((List.cons.inj h).1 ▸ mem_cons_self) hb
  | cons c a ih =>
    cases b with
    | nil => exact absurd ((List.cons.inj h).1 ▸ mem_cons_self) ha
    | cons d b =>
      obtain ⟨hcd, hrest⟩ := List.cons.inj h
      obtain ⟨hab, hxy⟩ := ih (fun hin => ha (mem_cons_of_mem _ hin))
        (fun hin => hb (mem_cons_of_mem _ hin)) hrest
      exact ⟨by rw [hcd, hab], hxy⟩

theorem marker_not_begun {b : UInt8} (hb : b ≠ 0) : ¬ marker word <+: b :: rest := fun h =>
  hb ((cons_prefix_cons.mp h).1).symm

theorem find_skip {piece : Bytes} (h : 0 ∉ piece) :
    find (marker word) (piece ++ rest) = (find (marker word) rest).map (piece.length + ·) := by
  induction piece with
  | nil => simp
  | cons b piece ih =>
    obtain ⟨hb, hpiece⟩ := not_or.mp (mt mem_cons.mpr h)
    rw [cons_append, find, if_neg (marker_not_begun (Ne.symm hb)), ih hpiece, Option.map_map]
    congr 1
    funext k
    simp only [Function.comp, length_cons]
    omega

theorem marker_overlap {b : UInt8} (hword : 0 ∉ word) (hbegins : ¬ marker word <+: b :: before)
    (h : marker word <+: b :: before ++ (marker word ++ rest)) : b :: before = 0 :: word := by
  obtain ⟨more, hmore⟩ := h
  obtain ⟨later, hbefore, -⟩ | ⟨later, hmarker, hlater⟩ := append_eq_append_iff.mp hmore
  · exact absurd ⟨later, hbefore.symm⟩ hbegins
  cases later with
  | nil => exact absurd ⟨[], by rw [append_nil, hmarker, append_nil]⟩ hbegins
  | cons c later =>
    -- what goes beyond them begins with the next marker's NUL, and a word has none
    have hc : 0 = c := (List.cons.inj hlater).1
    obtain ⟨hb, hparts⟩ := List.cons.inj hmarker
    rw [← hc] at hparts
    obtain ⟨hword', -, -⟩ := (List.append_cons_inj_of_notMem hword not_mem_nil).mp hparts
    rw [← hb, hword']

theorem find_first (hword : 0 ∉ word) (h : ¬ marker word <:+: before) :
    ∃ k, find (marker word) (before ++ (marker word ++ rest)) = some k ∧
      ((before ++ (marker word ++ rest)).drop (k + (marker word).length) = rest ∨
        (before ++ (marker word ++ rest)).drop (k + (marker word).length) = word ++ 0 :: rest) := by
  induction before with
  | nil =>
    refine ⟨0, ?_, .inl ?_⟩
    · rw [nil_append, marker, cons_append, cons_append, find, if_pos]
      exact prefix_append (0 :: (word ++ [0])) rest
    · rw [nil_append, Nat.zero_add, drop_left]
  | cons b before ih =>
    rw [infix_cons_iff] at h
    obtain ⟨hbegins, hinfix⟩ := not_or.mp h
    by_cases hhere : marker word <+: b :: before ++ (marker word ++ rest)
    · refine ⟨0, if_pos hhere, .inr ?_⟩
      have hread : 0 :: word ++ (marker word ++ rest) = marker word ++ (word ++ 0 :: rest) := by
        simp [marker]
      rw [marker_overlap hword hbegins hhere, hread, Nat.zero_add, drop_left]
    · obtain ⟨k, hk, hdrop⟩ := ih hinfix
      refine ⟨k + 1, ?_, ?_⟩
      · exact (if_neg hhere).trans (congrArg (Option.map (· + 1)) hk)
      · rwa [cons_append, Nat.add_right_comm, drop_succ_cons]

theorem find_after_pieces (hword : 0 ∉ word) (hne : word ≠ []) {pieces : List Bytes}
    (h : ∀ piece ∈ pieces, 0 ∉ piece ∧ piece ≠ word) :
    find (marker word) (pieces.flatMap (· ++ [0]) ++ (marker word ++ after)) =
      some (pieces.flatMap (· ++ [0])).length := by
  induction pieces with
  | nil =>
    rw [flatMap_nil, nil_append, marker, cons_append, cons_append, find, if_pos]
    · rfl
    · exact prefix_append (0 :: (word ++ [0])) after
  | cons piece pieces ih =>
    have hrest := ih fun other ho => h other (mem_cons_of_mem _ ho)
    -- the NUL after a piece begins no marker
    have hno : ¬ marker word <+: 0 :: (pieces.flatMap (· ++ [0]) ++ (marker word ++ after)) := by
      intro hpre
      have hnext : word ++ [0] <+: pieces.flatMap (· ++ [0]) ++ (marker word ++ after) :=
        (cons_prefix_cons.mp hpre).2
      cases pieces with
      | nil =>
        obtain ⟨c, word, rfl⟩ := exists_cons_of_ne_nil hne
        exact hword ((cons_prefix_cons.mp hnext).1 ▸ mem_cons_self)
      | cons other pieces =>
        have hother := h other (mem_cons_of_mem _ mem_cons_self)
        obtain ⟨more, hmore⟩ := hnext
        rw [flatMap_cons, append_assoc, append_assoc, append_assoc] at hmore
        exact hother.2 (parted_unique hword hother.1 hmore).1.symm
    rw [flatMap_cons, append_assoc, append_assoc,
      find_skip (h piece mem_cons_self).1, singleton_append, find, if_neg hno, hrest]
    simp

theorem utf8_append (a b : String) : utf8 (a ++ b) = utf8 a ++ utf8 b := by
  rw [utf8_eq, utf8_eq, utf8_eq, String.toList_append, flatMap_append]

theorem utf8_of_fromUtf8 {bytes : Bytes} {s : String} (h : fromUtf8 bytes = some s) :
    utf8 s = bytes := by
  rw [fromUtf8, String.fromUTF8?] at h
  split at h
  · cases h
    rfl
  · cases h

theorem equals_mem_utf8 {s : String} : 0x3d ∈ utf8 s ↔ '=' ∈ s.toList := by
  rw [utf8_eq, mem_flatMap]
  constructor
  · rintro ⟨c, hc, hin⟩
    have heq : c = '=' := Char.ext (UInt32.toNat_inj.mp (eq_of_mem_utf8EncodeChar (by decide) hin))
    exact heq ▸ hc
  · exact fun hc => ⟨'=', hc, by decide⟩

/-- What an entry is to be read as: its name and its value, if both are UTF-8 and the name is none
    of the four that are about the throwaway shell. -/
def readable : Bytes × Bytes → Option (String × String)
  | (key, value) =>
    (fromUtf8 key).bind fun key => (fromUtf8 value).bind fun value =>
      if key = "_" ∨ key = "SHLVL" ∨ key = "PWD" ∨ key = "OLDPWD" then none else some (key, value)

theorem transient_iff {key : String} :
    transient key = true ↔ key = "_" ∨ key = "SHLVL" ∨ key = "PWD" ∨ key = "OLDPWD" := by
  simp [transient]

theorem parseEntry_written {key value : Bytes} (hkey : key ≠ []) (hequals : 0x3d ∉ key) :
    parseEntry (key ++ 0x3d :: value) = readable (key, value) := by
  have hsign : utf8 "=" = [0x3d] := by decide +kernel
  cases hentry : fromUtf8 (key ++ 0x3d :: value) with
  | none =>
    cases hk : fromUtf8 key with
    | none => simp [parseEntry, readable, hentry, hk]
    | some k =>
      cases hv : fromUtf8 value with
      | none => simp [parseEntry, readable, hentry, hk, hv]
      | some v =>
        -- two texts around an `=` are a text
        have hall : utf8 (k ++ "=" ++ v) = key ++ 0x3d :: value := by
          rw [utf8_append, utf8_append, hsign, utf8_of_fromUtf8 hk, utf8_of_fromUtf8 hv]
          simp
        rw [← hall, fromUtf8_utf8] at hentry
        cases hentry
  | some entry =>
    have hutf8 := utf8_of_fromUtf8 hentry
    have hmem : '=' ∈ entry.toList := equals_mem_utf8.mp (hutf8 ▸ by simp)
    cases hcut : Text.cut ['='] entry.toList with
    | none => exact absurd hmem (Text.cut_char_none.mp hcut)
    | some cut =>
      obtain ⟨k, v⟩ := cut
      obtain ⟨hno, htext⟩ := Text.cut_char_some hcut
      have hall : utf8 entry = utf8 (String.ofList k) ++ 0x3d :: utf8 (String.ofList v) := by
        have hparts : entry = String.ofList k ++ "=" ++ String.ofList v := by
          apply String.toList_injective
          rw [htext]
          simp
        rw [hparts, utf8_append, utf8_append, hsign]
        simp
      have hno' : 0x3d ∉ utf8 (String.ofList k) := by
        rwa [equals_mem_utf8, String.toList_ofList]
      obtain ⟨rfl, rfl⟩ := parted_unique hequals hno' (hutf8.symm.trans hall)
      have hne : k ≠ [] := fun hnil => hkey (by rw [hnil]; rfl)
      cases htransient : transient (String.ofList k) <;>
        simp [parseEntry, readable, hentry, hcut, hne, htransient, ← transient_iff]

theorem foldl_insert {entries acc : Vars} (h : ((acc ++ entries).map (·.1)).Nodup) :
    entries.foldl insert acc = acc ++ entries := by
  induction entries generalizing acc with
  | nil => rw [List.foldl_nil, append_nil]
  | cons entry entries ih =>
    have hother : acc.filter (·.1 ≠ entry.1) = acc := by
      apply filter_eq_self.mpr
      intro var hvar
      rw [map_append, nodup_append] at h
      simpa using h.2.2 var.1 (mem_map_of_mem hvar) entry.1 (by simp)
    have hinsert : insert acc entry = acc ++ [entry] := by rw [insert, hother]
    rw [foldl_cons, hinsert, ih (by simpa using h), append_assoc, singleton_append]

theorem splitOn_pieces {pieces : List Bytes} (h : ∀ piece ∈ pieces, 0 ∉ piece) :
    (pieces.flatMap (· ++ [0])).splitOn 0 = pieces ++ [[]] := by
  induction pieces with
  | nil => rfl
  | cons piece pieces ih =>
    rw [flatMap_cons, append_assoc, singleton_append, splitOn_eq_splitOnP,
      splitOnP_append_cons_of_forall_mem _ 0 (by simp), ← splitOn_eq_splitOnP,
      ih fun other ho => h other (mem_cons_of_mem _ ho)]
    · rfl
    · intro b hb
      have : b ≠ 0 := fun heq => h piece mem_cons_self (heq ▸ hb)
      simpa using this

/-- What the system gives a process: distinct names without `=`, and no NUL anywhere. -/
structure EnvOk (env : List (Bytes × Bytes)) : Prop where
  names : ∀ var ∈ env, var.1 ≠ [] ∧ 0x3d ∉ var.1 ∧ 0 ∉ var.1
  values : ∀ var ∈ env, 0 ∉ var.2
  distinct : (env.map (·.1)).Nodup

theorem EnvOk.readable_nodup {env : List (Bytes × Bytes)} (h : EnvOk env) :
    ((env.filterMap readable).map (·.1)).Nodup := by
  have hkeys : ∀ {var : Bytes × Bytes} {entry : String × String},
      entry ∈ readable var → utf8 entry.1 = var.1 := by
    intro var entry hread
    obtain ⟨key, hkey, hread⟩ := bind_eq_some_iff.mp hread
    obtain ⟨value, hvalue, hread⟩ := bind_eq_some_iff.mp hread
    split at hread
    · cases hread
    · cases hread
      exact utf8_of_fromUtf8 hkey
  rw [List.Nodup, pairwise_map]
  refine List.Pairwise.filterMap readable ?_ (pairwise_map.mp h.distinct)
  intro a b hab entry he other ho heq
  exact hab (by rw [← hkeys he, ← hkeys ho, heq])

/-- **The environment is read as it was printed**, whatever was printed around it. -/
theorem parseDump_printEnv {env : List (Bytes × Bytes)} {before after : Bytes} (hok : EnvOk env)
    (hbefore : ¬ marker BEGIN_WORD <:+: before) (hsome : env.filterMap readable ≠ []) :
    parseDump (before ++ printEnv env ++ after) = some (env.filterMap readable) := by
  have hend : 0 ∉ END_WORD ∧ END_WORD ≠ [] ∧ 0x3d ∉ END_WORD := by decide +kernel
  have hbegin : 0 ∉ BEGIN_WORD ∧ BEGIN_WORD ≠ END_WORD ∧ parseEntry BEGIN_WORD = none := by
    decide +kernel
  let pieces := env.map fun var => var.1 ++ 0x3d :: var.2
  have hpieces : ∀ piece ∈ pieces, 0 ∉ piece ∧ piece ≠ END_WORD := by
    intro piece hpiece
    obtain ⟨var, hvar, rfl⟩ := mem_map.mp hpiece
    refine ⟨?_, fun heq => hend.2.2 (heq ▸ by simp)⟩
    simp [(hok.names var hvar).2.2, hok.values var hvar]
  have hentries : pieces.filterMap parseEntry = env.filterMap readable := by
    rw [List.filterMap_map]
    refine filterMap_congr fun var hvar => ?_
    exact parseEntry_written (hok.names var hvar).1 (hok.names var hvar).2.1
  -- what is read of a body that has these entries, after the begin marker's word or not
  have hread : ∀ (found : List Bytes) (body : Bytes),
      (∀ piece ∈ found, 0 ∉ piece ∧ piece ≠ END_WORD) →
      found.filterMap parseEntry = env.filterMap readable →
      body = found.flatMap (· ++ [0]) ++ (marker END_WORD ++ after) →
      ((find (marker END_WORD) body).bind fun stop =>
        let vars := (((body.take stop).splitOn 0).filterMap parseEntry).foldl insert []
        if vars = [] then none else some vars) = some (env.filterMap readable) := by
    rintro found body hfound hsame rfl
    have hnil : parseEntry [] = none := by decide +kernel
    rw [find_after_pieces hend.1 hend.2.1 hfound, bind_some, take_left,
      splitOn_pieces fun piece hp => (hfound piece hp).1, filterMap_append, hsame]
    simp only [filterMap_cons, hnil, filterMap_nil, append_nil]
    rw [foldl_insert (by simpa using hok.readable_nodup), nil_append, if_neg hsome]
  have houtput : before ++ printEnv env ++ after =
      before ++ (marker BEGIN_WORD ++ (pieces.flatMap (· ++ [0]) ++ (marker END_WORD ++ after))) := by
    simp [printEnv, pieces, List.flatMap_map]
  obtain ⟨start, hstart, hdrop⟩ := find_first hbegin.1 hbefore
  rw [houtput, parseDump, hstart, bind_some]
  obtain hdrop | hdrop := hdrop
  · exact hread pieces _ hpieces hentries hdrop
  · refine hread (BEGIN_WORD :: pieces) _ (forall_mem_cons.mpr ⟨⟨hbegin.1, hbegin.2.1⟩, hpieces⟩)
      ?_ ?_
    · rw [filterMap_cons, hbegin.2.2, hentries]
    · rw [hdrop, flatMap_cons]
      simp

/-! ## What is left in a cleaned environment -/

def Names (text dir : Text) : Prop :=
  dir ≠ [] ∧ (∀ more, dir ≠ more ++ ['/']) ∧ ∃ slashes, text = dir ++ List.replicate slashes '/'

/-- The environment is that of a running AppImage, mounted at this folder. -/
def RunsFrom (vars : Vars) (dir : Text) : Prop :=
  (∃ image, ("APPIMAGE", image) ∈ vars) ∧ ∃ value, ("APPDIR", value) ∈ vars ∧ Names value.toList dir

/-- In the folder of the AppImage the environment is of, or in some AppImage's mount. -/
def InBundle (tmpdir : Text) (vars : Vars) (entry : Text) : Prop :=
  (∃ dir, RunsFrom vars dir ∧ (entry = dir ∨ dir ++ ['/'] <+: entry)) ∨
    ∃ temp, (Names tmpdir temp ∨ temp = "/tmp".toList) ∧ temp ++ "/.mount_".toList <+: entry

theorem trimmed_iff {text dir : Text} (hne : dir ≠ []) :
    trimEndSlashes text = dir ↔ Names text dir := by
  have hsnoc : ∀ slashes, dir ++ List.replicate (slashes + 1) '/' =
      dir ++ List.replicate slashes '/' ++ ['/'] := fun slashes => by
    rw [List.replicate_succ', append_assoc]
  unfold trimEndSlashes
  induction text using List.reverseRecOn with
  | nil =>
    refine ⟨fun h => absurd h.symm hne, ?_⟩
    rintro ⟨-, -, slashes, htext⟩
    exact absurd (append_eq_nil_iff.mp htext.symm).1 hne
  | append_singleton text c ih =>
    by_cases hc : c = '/'
    · rw [hc, List.rdropWhile_concat_pos _ _ _ (by simp)]
      refine ih.trans ?_
      refine and_congr_right fun _ => and_congr_right fun hends => ⟨?_, ?_⟩
      · rintro ⟨slashes, rfl⟩
        exact ⟨slashes + 1, (hsnoc slashes).symm⟩
      · rintro ⟨slashes, htext⟩
        cases slashes with
        | zero => exact absurd (htext.trans (append_nil _)).symm (hends text)
        | succ slashes =>
          rw [hsnoc] at htext
          exact ⟨slashes, List.append_cancel_right htext⟩
    · rw [List.rdropWhile_concat_neg _ _ _ (by simpa using hc)]
      constructor
      · rintro rfl
        refine ⟨hne, fun more heq => hc ?_, 0, (append_nil _).symm⟩
        exact singleton_inj.mp (List.append_inj_right' heq rfl)
      · rintro ⟨-, -, slashes, htext⟩
        cases slashes with
        | zero => exact htext.trans (append_nil _)
        | succ slashes =>
          rw [hsnoc] at htext
          exact absurd (singleton_inj.mp (List.append_inj_right' htext rfl)) hc

theorem get_mem {vars : Vars} {name value : String} (h : vars.get name = some value) :
    (name, value) ∈ vars := by
  obtain ⟨var, hfind, rfl⟩ := map_eq_some_iff.mp h
  have hname : var.1 = name := by simpa using List.find?_some hfind
  exact hname ▸ mem_of_find?_eq_some hfind

theorem get_of_mem {vars : Vars} (hkeys : (vars.map (·.1)).Nodup) {name value : String}
    (h : (name, value) ∈ vars) : vars.get name = some value := by
  cases hget : vars.get name with
  | none =>
    have hnone := List.find?_eq_none.mp (map_eq_none_iff.mp hget) _ h
    exact absurd (decide_eq_true rfl) hnone
  | some other => cases List.inj_on_of_nodup_map hkeys (get_mem hget) h rfl; rfl

theorem appdir_iff {vars : Vars} {dir : Text} (hkeys : (vars.map (·.1)).Nodup) :
    appdir vars = some dir ↔ RunsFrom vars dir := by
  unfold appdir
  constructor
  · intro h
    obtain ⟨hmap, hne⟩ := filter_eq_some_iff.mp h
    obtain ⟨value, hvalue, htrim⟩ := map_eq_some_iff.mp hmap
    obtain ⟨hget, himage⟩ := filter_eq_some_iff.mp hvalue
    obtain ⟨image, himage⟩ := isSome_iff_exists.mp himage
    exact ⟨⟨image, get_mem himage⟩, value, get_mem hget,
      (trimmed_iff (of_decide_eq_true hne)).mp htrim⟩
  -- names are distinct, so what is there is what is found
  · rintro ⟨⟨image, himage⟩, value, hvalue, hnames⟩
    rw [get_of_mem hkeys hvalue, get_of_mem hkeys himage]
    have htrim := (trimmed_iff hnames.1).mpr hnames
    simp [Option.filter, htrim, hnames.1]

theorem inABundle_iff {tmpdir entry : Text} {vars : Vars} (hkeys : (vars.map (·.1)).Nodup) :
    inABundle tmpdir (appdir vars) entry = true ↔ InBundle tmpdir vars entry := by
  have hmount : inAnAppimageMount tmpdir entry = true ↔ ∃ temp,
      (Names tmpdir temp ∨ temp = "/tmp".toList) ∧ temp ++ "/.mount_".toList <+: entry := by
    simp only [inAnAppimageMount, List.any_cons, List.any_nil, Bool.or_false, Bool.or_eq_true,
      Bool.and_eq_true, decide_eq_true_eq, List.isPrefixOf_iff_prefix]
    constructor
    -- an empty `TMPDIR` names no folder; `/tmp` is one whatever it is
    · rintro (⟨hne, hin⟩ | ⟨-, hin⟩)
      · exact ⟨_, .inl ((trimmed_iff hne).mp rfl), hin⟩
      · exact ⟨_, .inr rfl, hin⟩
    · rintro ⟨temp, hnames | rfl, hin⟩
      · rw [(trimmed_iff hnames.1).mpr hnames]
        exact .inl ⟨hnames.1, hin⟩
      · exact .inr ⟨by decide, hin⟩
  unfold InBundle inABundle
  rw [Bool.or_eq_true, hmount, or_comm]
  refine or_congr_left ?_
  simp only [Option.any_eq_true, appdir_iff hkeys, Bool.or_eq_true, decide_eq_true_eq,
    List.isPrefixOf_iff_prefix]

theorem withoutBundle_some {tmpdir : Text} {appdir : Option Text} {var entry : String × String}
    (h : withoutBundle tmpdir appdir var = some entry) :
    entry.1 = var.1 ∧
      (appdir.isSome → entry.1 ∉ APPIMAGE_RUNTIME_VARS ∧ entry.1 ∉ APPIMAGE_GTK_HOOK_VARS) ∧
      (∀ part ∈ entry.2.toList.splitOn ':', inABundle tmpdir appdir part = false) ∧
      (entry.2.toList.splitOn ':').Sublist (var.2.toList.splitOn ':') := by
  obtain ⟨name, value⟩ := var
  unfold withoutBundle at h
  dsimp only at h
  split at h
  · cases h
  rename_i hnamed
  have hown : appdir.isSome → name ∉ APPIMAGE_RUNTIME_VARS ∧ name ∉ APPIMAGE_GTK_HOOK_VARS :=
    fun hdir => not_or.mp fun hin => hnamed ⟨hdir, hin⟩
  split at h
  · rename_i hclean
    cases h
    exact ⟨rfl, hown, by simpa using hclean, List.Sublist.refl _⟩
  · split at h
    · cases h
    rename_i hvalue
    cases h
    have hparts : ([':'].intercalate ((value.toList.splitOn ':').filter fun entry =>
        entry ≠ [] && !inABundle tmpdir appdir entry)).splitOn ':' =
          (value.toList.splitOn ':').filter fun entry =>
            entry ≠ [] && !inABundle tmpdir appdir entry := by
      rw [splitOn_eq_splitOnP]
      refine Text.splitOnP_intercalate (by simp) (fun hnil => hvalue (by rw [hnil]; rfl)) ?_
      intro part hpart c hc
      have hno := Text.not_mem_splitOn part (mem_filter.mp hpart).1
      have : c ≠ ':' := fun heq => hno (heq ▸ hc)
      simpa using this
    rw [String.toList_ofList, hparts]
    refine ⟨rfl, hown, fun part hpart => ?_, filter_sublist⟩
    simpa using (Bool.and_eq_true_iff.mp (mem_filter.mp hpart).2).2

theorem withoutBundle_self {tmpdir : Text} {appdir : Option Text} {name value : String}
    (hown : appdir.isSome → name ∉ APPIMAGE_RUNTIME_VARS ∧ name ∉ APPIMAGE_GTK_HOOK_VARS)
    (h : ∀ part ∈ value.toList.splitOn ':', inABundle tmpdir appdir part = false) :
    withoutBundle tmpdir appdir (name, value) = some (name, value) := by
  unfold withoutBundle
  dsimp only
  rw [if_neg, if_pos]
  · simpa using h
  · rintro ⟨hdir, hin⟩
    exact (not_or.mpr (hown hdir)) hin

theorem mem_cleaned {tmpdir : Text} {vars : Vars} {entry : String × String} :
    entry ∈ cleaned tmpdir vars ↔
      (∃ var ∈ vars, withoutBundle tmpdir (appdir vars) var = some entry) ∧
        entry.1 ∉ FOREIGN_SESSION_MARKERS := by
  rw [cleaned, withoutForeignSessions, withoutAppimage, mem_filter, mem_filterMap,
    decide_eq_true_iff]

theorem appdir_cleaned {tmpdir : Text} {vars : Vars} (hkeys : (vars.map (·.1)).Nodup) :
    appdir (cleaned tmpdir vars) = none := by
  cases hdir : appdir (cleaned tmpdir vars) with
  | none => rfl
  | some dir =>
    obtain ⟨hmap, hne⟩ := filter_eq_some_iff.mp hdir
    obtain ⟨value, hvalue, rfl⟩ := map_eq_some_iff.mp hmap
    obtain ⟨hget, himage⟩ := filter_eq_some_iff.mp hvalue
    obtain ⟨image, himage⟩ := isSome_iff_exists.mp himage
    obtain ⟨⟨⟨_, value'⟩, hvar, hkept⟩, -⟩ := mem_cleaned.mp (get_mem hget)
    obtain ⟨⟨⟨_, image'⟩, himage', hkeptImage⟩, -⟩ := mem_cleaned.mp (get_mem himage)
    obtain ⟨hname, hown, -, hparts⟩ := withoutBundle_some hkept
    obtain ⟨hnameImage, -, -, -⟩ := withoutBundle_some hkeptImage
    cases hname
    cases hnameImage
    cases hbefore : appdir vars with
    | some before =>
      rw [hbefore] at hown
      exact absurd (by decide : "APPDIR" ∈ APPIMAGE_RUNTIME_VARS) (hown rfl).1
    | none =>
      -- the value was nothing but `/`s, which are no parts to choose from
      rw [appdir, get_of_mem hkeys hvar, get_of_mem hkeys himage'] at hbefore
      have hslashes : trimEndSlashes value'.toList = [] := by
        simpa [Option.filter] using hbefore
      have hall : ∀ c ∈ value'.toList, (c == ':') = false := by
        intro c hc
        have := List.rdropWhile_eq_nil_iff.mp hslashes c hc
        simp_all
      have hone := List.splitOnP_eq_singleton hall
      rw [← splitOn_eq_splitOnP] at hone
      have hsame : value.toList.splitOn ':' = [value'.toList] := by
        rw [hone] at hparts
        obtain hnil | hone := List.sublist_singleton.mp hparts
        · exact absurd hnil (splitOn_ne_nil _ _)
        · exact hone
      have hvalue : value.toList = value'.toList := by
        rw [← (intercalate_splitOn ':' : _ = value.toList), hsame]
        simp
      rw [hvalue, hslashes] at hne
      cases hne

/-- **Cleaning an environment again does nothing.** -/
theorem cleaned_again {tmpdir : Text} {vars : Vars} (hkeys : (vars.map (·.1)).Nodup) :
    cleaned tmpdir (cleaned tmpdir vars) = cleaned tmpdir vars := by
  have hself : ∀ var ∈ cleaned tmpdir vars,
      withoutBundle tmpdir (appdir (cleaned tmpdir vars)) var = some var := by
    intro var hvar
    obtain ⟨⟨before, -, hkept⟩, -⟩ := mem_cleaned.mp hvar
    obtain ⟨-, -, hparts, -⟩ := withoutBundle_some hkept
    rw [appdir_cleaned hkeys]
    refine withoutBundle_self nofun fun part hpart => ?_
    have := (Bool.or_eq_false_iff.mp (hparts part hpart)).1
    simp [inABundle, this]
  have hall : withoutAppimage tmpdir (cleaned tmpdir vars) = cleaned tmpdir vars := by
    rw [withoutAppimage, filterMap_congr hself, List.filterMap_some]
  rw [cleaned, hall, withoutForeignSessions, filter_eq_self]
  exact fun var hvar => decide_eq_true (mem_cleaned.mp hvar).2

/-- **An environment is read back as it was printed, and cleaned of what leads into a bundle and of
    nothing else.** -/
theorem env_read_and_cleaned :
    (∀ (env : List (Bytes × Bytes)) (before after : Bytes), EnvOk env →
      ¬ marker BEGIN_WORD <:+: before → env.filterMap readable ≠ [] →
      parseDump (before ++ printEnv env ++ after) = some (env.filterMap readable)) ∧
    ∀ (tmpdir : Text) (vars : Vars), (vars.map (·.1)).Nodup →
      (∀ var ∈ cleaned tmpdir vars, ∀ part ∈ var.2.toList.splitOn ':',
        ¬ InBundle tmpdir vars part) ∧
      (∀ var ∈ cleaned tmpdir vars, var.1 ∉ FOREIGN_SESSION_MARKERS ∧
        ((∃ dir, RunsFrom vars dir) →
          var.1 ∉ APPIMAGE_RUNTIME_VARS ∧ var.1 ∉ APPIMAGE_GTK_HOOK_VARS)) ∧
      (∀ var ∈ vars, var.1 ∉ FOREIGN_SESSION_MARKERS →
        ((∃ dir, RunsFrom vars dir) →
          var.1 ∉ APPIMAGE_RUNTIME_VARS ∧ var.1 ∉ APPIMAGE_GTK_HOOK_VARS) →
        (∀ part ∈ var.2.toList.splitOn ':', ¬ InBundle tmpdir vars part) →
        var ∈ cleaned tmpdir vars) ∧
      (∀ var ∈ cleaned tmpdir vars, ∃ value, (var.1, value) ∈ vars ∧
        (var.2.toList.splitOn ':').Sublist (value.toList.splitOn ':')) ∧
      cleaned tmpdir (cleaned tmpdir vars) = cleaned tmpdir vars := by
  refine ⟨fun env before after hok hbefore hsome => parseDump_printEnv hok hbefore hsome,
    fun tmpdir vars hkeys => ?_⟩
  have hruns : (∃ dir, RunsFrom vars dir) ↔ (appdir vars).isSome = true := by
    simp only [isSome_iff_exists, appdir_iff hkeys]
  refine ⟨?_, ?_, ?_, ?_, cleaned_again hkeys⟩
  · intro var hvar part hpart hin
    obtain ⟨⟨before, -, hkept⟩, -⟩ := mem_cleaned.mp hvar
    have hno := (withoutBundle_some hkept).2.2.1 part hpart
    rw [(inABundle_iff hkeys).mpr hin] at hno
    cases hno
  · intro var hvar
    obtain ⟨⟨before, -, hkept⟩, hforeign⟩ := mem_cleaned.mp hvar
    exact ⟨hforeign, fun hdir => (withoutBundle_some hkept).2.1 (hruns.mp hdir)⟩
  · intro var hvar hforeign hown hparts
    refine mem_cleaned.mpr ⟨⟨var, hvar, withoutBundle_self (hruns.mpr · |> hown) fun part hpart =>
      ?_⟩, hforeign⟩
    exact Bool.eq_false_iff.mpr fun hin => hparts part hpart ((inABundle_iff hkeys).mp hin)
  · intro var hvar
    obtain ⟨⟨⟨name, value⟩, hbefore, hkept⟩, -⟩ := mem_cleaned.mp hvar
    obtain ⟨hname, -, -, hparts⟩ := withoutBundle_some hkept
    exact ⟨value, hname ▸ hbefore, hparts⟩

/-- The environment of an AppImage that was started from another one. -/
def mounted : Vars :=
  [("APPDIR", "/mnt/new/"), ("APPIMAGE", "/apps/new"), ("GDK_BACKEND", "x11"), ("CLAUDECODE", "1"),
    ("PATH", "/mnt/new/bin:/tmp/.mount_old/bin:/usr/bin:/mnt/news"), ("PYTHONHOME", "/mnt/new"),
    ("DISPLAY", ":0")]

/-- The begin marker's own word just before it, a value with a newline and a name of the shell's. -/
theorem env_read_and_cleaned_one :
    parseDump (0 :: BEGIN_WORD ++ printEnv [([65], [10, 61]), ([95], [65])] ++ [1]) =
        some [("A", "\n=")] ∧
      cleaned [] mounted = [("PATH", "/usr/bin:/mnt/news"), ("DISPLAY", ":0")] ∧
      cleaned [] (cleaned [] mounted) = cleaned [] mounted := by
  have hread := env_read_and_cleaned.1 [([65], [10, 61]), ([95], [65])] (0 :: BEGIN_WORD) [1]
    ⟨by decide, by decide, by decide⟩ (by decide +kernel) (by decide +kernel)
  refine ⟨hread.trans (by decide +kernel), by decide +kernel, ?_⟩
  exact (env_read_and_cleaned.2 _ _ (by decide)).2.2.2.2

end Yardsort.Env
