import Yardsort.Lib.Fallible
import Yardsort.Smoke.Filled

/- What a run hands to its processes: the line of a `shell` step, which is the file's own whatever
   the run's values are, and the `YS_…` variables every process starts with.

   An input's variable has the input's id in upper case, with `_` for a `-`, and the parser accepts
   both in an id: two inputs may share a variable, and then the later one has it. That is the only
   way (`variables_separate`). -/
namespace Yardsort.Smoke
open Yardsort.Lib Yardsort.Yaml Runner

def underscored (id : String) : String :=
  String.ofList (id.toList.map fun c => if c = '-' then '_' else c)

/-- No two inputs' ids are the same once `-` is read as `_`. -/
def Apart (test : Test) : Prop :=
  ∀ a ∈ test.inputs, ∀ b ∈ test.inputs, underscored a.id = underscored b.id → a.id = b.id

def lowered (c : Char) : Char := if c.isUpper then c.toLower else c

theorem lowered_suffix {c : Char}
    (h : (c.isLower || c.isDigit || decide (c = '_') || decide (c = '-')) = true) :
    lowered (if c.isAlphanum then c.toUpper else '_') = if c = '-' then '_' else c := by
  have hall : ∀ n < 123, (let c := Char.ofNat n
      (c.isLower || c.isDigit || decide (c = '_') || decide (c = '-')) = true →
        lowered (if c.isAlphanum then c.toUpper else '_') = if c = '-' then '_' else c) := by
    decide +kernel
  have hlt : c.toNat < 123 := by
    simp only [Bool.or_eq_true, decide_eq_true_eq, Char.isLower, Char.isDigit, Bool.and_eq_true,
      UInt32.le_iff_toNat_le, ge_iff_le] at h
    obtain ((h | h) | rfl) | rfl := h
    · change 97 ≤ c.toNat ∧ c.toNat ≤ 122 at h
      omega
    · change 48 ≤ c.toNat ∧ c.toNat ≤ 57 at h
      omega
    · decide
    · decide
  have := hall c.toNat hlt
  rw [Char.ofNat_toNat] at this
  exact this h

theorem envSuffix_underscored (id : String) : envSuffix id = envSuffix (underscored id) := by
  unfold envSuffix underscored
  rw [String.toList_ofList, map_map]
  congr 2
  funext c
  by_cases hc : c = '-'
  · subst hc
    decide
  · simp [hc]

/-- Two names have one suffix exactly when they are one name with `_` for `-`. -/
theorem envSuffix_eq_iff {a b : String} (ha : isName a = true) (hb : isName b = true) :
    envSuffix a = envSuffix b ↔ underscored a = underscored b := by
  constructor
  · intro h
    have hback : ∀ {id : String}, isName id = true →
        String.ofList ((envSuffix id).toList.map lowered) = underscored id := by
      intro id hid
      unfold envSuffix underscored
      rw [String.toList_ofList, map_map]
      congr 1
      apply map_congr_left
      intro c hc
      have hchars := (Bool.and_eq_true _ _ ▸ hid).2
      exact lowered_suffix (all_eq_true.mp hchars c hc)
    rw [← hback ha, ← hback hb, h]
  · intro h
    rw [envSuffix_underscored a, envSuffix_underscored b, h]

theorem inputName_eq_iff {a b : String} : inputName a = inputName b ↔ envSuffix a = envSuffix b :=
  String.append_right_inj _

theorem envVariable_inj {a b : String} : envVariable a = envVariable b ↔ a = b :=
  String.append_right_inj _

theorem getEnv_append {env own : Pairs} (hnodup : (own.map (·.1)).Nodup) {key value : String}
    (h : (key, value) ∈ own) : getEnv (env ++ own) key = some value := by
  have hown : own.reverse.lookup key = some value := by
    apply lookup_of_mem
    · rw [List.map_reverse]
      exact List.nodup_reverse.mpr hnodup
    · exact mem_reverse.mpr h
  rw [getEnv, reverse_append, lookup_append, hown]
  rfl

theorem checkEach_declared {given : Pairs} {inputs : List Input} {values : Pairs}
    {missing : List String} {result : Pairs × List String}
    (h : checkEach given inputs values missing = .ok result) :
    (result.1.map (·.1)).Sublist (values.map (·.1) ++ inputs.map (·.id)) := by
  induction inputs generalizing values missing with
  | nil =>
    cases h
    simp
  | cons input rest ih =>
    rw [checkEach] at h
    split at h
    · refine (ih h).trans ?_
      exact List.Sublist.append (.refl _) (List.sublist_cons_self _ _)
    · split at h
      · cases h
      · simpa using ih h

theorem checkInputs_declared {test : Test} {given inputs : Pairs}
    (h : checkInputs test given = .ok inputs) :
    (inputs.map (·.1)).Sublist (test.inputs.map (·.id)) := by
  unfold checkInputs at h
  split at h
  · cases h
  split at h
  · cases h
  · rename_i hcheck
    cases h
    simpa using checkEach_declared hcheck
  · cases h

/-- The variables of a run: its own, one for each declared input, one for each name of the test
    environment. -/
def variableNames (test : Test) (vars : Vars) : List String :=
  vars.own.map (·.1) ++ test.inputs.map (fun input => inputName input.id) ++
    vars.env.map fun entry => envVariable entry.1

/-- What is said of them: no two are the same, and each one's value in an environment is the
    run's, the input's, or the name's. -/
structure Own (test : Test) (vars : Vars) (env : Pairs) : Prop where
  names : (variableNames test vars).Nodup
  run : ∀ entry ∈ vars.own, getEnv env entry.1 = some entry.2
  inputs : ∀ entry ∈ vars.inputs, getEnv env (inputName entry.1) = some entry.2
  env : ∀ entry ∈ vars.env, getEnv env (envVariable entry.1) = some entry.2

/-- The character by which the run's own variables, the inputs' and the environment's differ. -/
def kindOf (name : String) : Option Char := name.toList[3]?

theorem kindOf_input (id : String) : kindOf (inputName id) = some 'I' := by
  simp [kindOf, inputName, String.toList_append]

theorem kindOf_env (name : String) : kindOf (envVariable name) = some 'E' := by
  simp [kindOf, envVariable, String.toList_append]

theorem kindOf_own {vars : Vars} {name : String} (h : name ∈ vars.own.map (·.1)) :
    kindOf name = some 'R' ∨ kindOf name = some 'W' := by
  simp only [Vars.own, map_cons, map_nil, mem_cons, not_mem_nil,
    or_false] at h
  obtain rfl | rfl | rfl | rfl := h <;> decide

theorem variableNames_nodup {test : Test} {vars : Vars} (horder : InOrder test)
    (hbegins : Begins test vars) : (variableNames test vars).Nodup ↔ Apart test := by
  have hown : (vars.own.map (·.1)).Nodup := by
    show ["YS_RUN_ID", "YS_RUN_PORT", "YS_RUN_DIR", "YS_WORKSPACE_PATH"].Nodup
    decide
  have henv : (vars.env.map fun entry => envVariable entry.1).Nodup := by
    have := hbegins.env.map (fun _ _ h => envVariable_inj.mp h : Function.Injective envVariable)
    rwa [map_map] at this
  have hids : (test.inputs.map fun input => inputName input.id).Nodup ↔ Apart test := by
    have hmap : (test.inputs.map fun input => inputName input.id) =
        (test.inputs.map (·.id)).map inputName := by rw [map_map]; rfl
    rw [hmap, List.nodup_map_iff_inj_on horder.inputIds]
    simp only [List.forall_mem_map]
    constructor
    · intro h a ha b hb heq
      refine h a ha b hb (inputName_eq_iff.mpr ?_)
      exact (envSuffix_eq_iff (horder.inputNames a ha) (horder.inputNames b hb)).mpr heq
    · intro h a ha b hb heq
      refine h a ha b hb ?_
      exact (envSuffix_eq_iff (horder.inputNames a ha) (horder.inputNames b hb)).mp
        (inputName_eq_iff.mp heq)
  rw [← hids, variableNames]
  constructor
  · intro h
    exact h.of_append_left.of_append_right
  · intro h
    refine nodup_append.mpr ⟨nodup_append.mpr ⟨hown, h, ?_⟩, henv, ?_⟩
    · rintro name hname other hother rfl
      obtain ⟨input, -, rfl⟩ := mem_map.mp hother
      obtain hkind | hkind := kindOf_own hname <;> simp [kindOf_input] at hkind
    · rintro name hname other hother rfl
      obtain ⟨entry, -, rfl⟩ := mem_map.mp hother
      obtain hname | hname := mem_append.mp hname
      · obtain hkind | hkind := kindOf_own hname <;> simp [kindOf_env] at hkind
      · obtain ⟨input, -, heq⟩ := mem_map.mp hname
        have hkind := kindOf_input input.id
        rw [heq, kindOf_env] at hkind
        cases hkind

theorem own_of_nodup {test : Test} {vars : Vars} (hbegins : Begins test vars)
    (hnames : (variableNames test vars).Nodup) (env : Pairs) :
    Own test vars (env ++ vars.processEnv) := by
  obtain ⟨given, inputs, hcheck, hperm⟩ := hbegins.inputs
  have hnodup : (vars.processEnv.map (·.1)).Nodup := by
    have hdeclared : ((vars.inputs.map (·.1)).map inputName).Perm
        ((inputs.map (·.1)).map inputName) := (hperm.map _).map _
    have hsub : ((inputs.map (·.1)).map inputName).Sublist
        (test.inputs.map fun input => inputName input.id) := by
      have := (checkInputs_declared hcheck).map inputName
      rwa [map_map (f := fun input : Input => input.id)] at this
    have hall : (vars.own.map (·.1) ++ (inputs.map (·.1)).map inputName ++
        vars.env.map fun entry => envVariable entry.1).Nodup :=
      hnames.sublist (((List.Sublist.refl _).append hsub).append (.refl _))
    have hperm := ((List.Perm.refl (vars.own.map (·.1))).append hdeclared).append
      (.refl (vars.env.map fun entry => envVariable entry.1))
    have hprocess : vars.processEnv.map (·.1) = vars.own.map (·.1) ++
        (vars.inputs.map (·.1)).map inputName ++
        vars.env.map fun entry => envVariable entry.1 := by
      simp [Vars.processEnv, comp_def]
    rw [hprocess]
    exact hperm.nodup_iff.mpr hall
  refine ⟨hnames, ?_, ?_, ?_⟩
  · intro entry hentry
    exact getEnv_append hnodup (mem_append_left _ (mem_append_left _ hentry))
  · intro entry hentry
    refine getEnv_append hnodup (mem_append_left _ (mem_append_right _ ?_))
    exact mem_map.mpr ⟨entry, hentry, rfl⟩
  · intro entry hentry
    refine getEnv_append hnodup (mem_append_right _ ?_)
    exact mem_map.mpr ⟨entry, hentry, rfl⟩

theorem command_env (ctx : Context) (vars : Vars) (program : String) (args : List String)
    (cwd : String) (env : Pairs) : ctx.base vars <+: (ctx.command vars program args cwd env).env :=
  prefix_append _ _

theorem start_env {ctx : Context} {vars : Vars} {read : String → String} {action : Action}
    {cmd : Command} (h : ctx.start vars read action = .ok (some cmd)) :
    ctx.base vars <+: cmd.env := by
  unfold Context.start at h
  split at h
  · obtain ⟨cwd, -, h⟩ := Fallible.bind_ok.mp h
    obtain ⟨program, -, h⟩ := Fallible.bind_ok.mp h
    cases h
    exact command_env ..
  · obtain ⟨cwd, -, h⟩ := Fallible.bind_ok.mp h
    obtain ⟨program, -, h⟩ := Fallible.bind_ok.mp h
    cases h
    exact command_env ..
  · obtain ⟨cwd, -, h⟩ := Fallible.bind_ok.mp h
    obtain ⟨⟨shell, args⟩, -, h⟩ := Fallible.bind_ok.mp h
    cases h
    exact command_env ..
  · obtain ⟨program, -, h⟩ := Fallible.bind_ok.mp h
    cases h
    exact command_env ..
  · cases Except.ok.inj h

theorem start_shell {ctx : Context} {vars : Vars} {read : String → String} {line : String}
    {cwd : Option String} {env : Pairs} {expect : ProcessExpect} {timeoutSecs : Option Nat}
    {cmd : Command} (h : ctx.start vars read (.shell line cwd env expect timeoutSecs) =
      .ok (some cmd)) : cmd.args.getLast? = some line := by
  unfold Context.start at h
  obtain ⟨cwd, -, h⟩ := Fallible.bind_ok.mp h
  obtain ⟨⟨shell, args⟩, -, h⟩ := Fallible.bind_ok.mp h
  cases h
  exact List.getLast?_concat ..

def LineOf (reader : Reader) (text : String) (stepId line : String) : Prop :=
  ∃ raw, reader.file text = .ok raw ∧
    ∃ s ∈ raw.inFile, s.id.value = stepId ∧ s.line.map (·.value) = some line

/-- A process a run starts, whatever meets the run. -/
def Starts (test : Test) (vars : Vars) (ctx : Context) (step : Step) (cmd : Command) : Prop :=
  ∃ w, ∃ k ∈ (phases w test vars).carried, k.step = step ∧
    ∃ read, ctx.start k.vars read step.action = .ok (some cmd)

/-- What is kept apart in the runs of a test with these values: what a shell is given is the file's
    own line, in this run and in every other; every process has the run's variables in its
    environment, and in that each one its own value. -/
structure Separate (reader : Reader) (text : String) (test : Test) (vars : Vars) (ctx : Context) :
    Prop where
  line : ∀ step cmd, Starts test vars ctx step cmd → step.action.name = "shell" →
    ∃ line, LineOf reader text step.id line ∧ cmd.args.getLast? = some line
  same : ∀ vars' ctx' step step' cmd cmd', Begins test vars' → Starts test vars ctx step cmd →
    Starts test vars' ctx' step' cmd' → step.id = step'.id → step.action.name = "shell" →
    cmd.args.getLast? = cmd'.args.getLast?
  env : ∀ step cmd, Starts test vars ctx step cmd → ctx.base vars <+: cmd.env
  own : Own test vars (ctx.base vars)

theorem starts_line {reader : Reader} {text : String} {test : Test} {vars : Vars} {ctx : Context}
    {step : Step} {cmd : Command} (h : parse reader text = .ok test) (hbegins : Begins test vars)
    (hstarts : Starts test vars ctx step cmd) (hshell : step.action.name = "shell") :
    step ∈ test.inFile ∧
      ∃ line, LineOf reader text step.id line ∧ cmd.args.getLast? = some line ∧
        ∃ cwd env expect timeoutSecs, step.action = .shell line cwd env expect timeoutSecs := by
  obtain ⟨horder, raw, hraw, hwritten⟩ := parse_inOrder h
  obtain ⟨w, k, hk, rfl, read, hstart⟩ := hstarts
  have hin := ((phases_sure hbegins horder).steps k hk).1
  refine ⟨hin, ?_⟩
  obtain ⟨s, hs, hid, -, hline⟩ := written_of_mem hwritten hin
  cases haction : k.step.action with
  | shell line cwd env expect timeoutSecs =>
    rw [haction] at hstart
    have hfile := (hline line cwd env expect timeoutSecs haction).2
    exact ⟨line, ⟨raw, hraw, s, hs, hid.symm, hfile⟩, start_shell hstart,
      cwd, env, expect, timeoutSecs, rfl⟩
  | _ =>
    rw [haction] at hshell
    simp [Action.name] at hshell

/-- **What a run hands to its processes is kept apart** exactly where no two inputs share a
    variable. -/
theorem variables_separate {reader : Reader} {text : String} {test : Test}
    (h : parse reader text = .ok test) {vars : Vars} (hbegins : Begins test vars) (ctx : Context) :
    Separate reader text test vars ctx ↔ Apart test := by
  have horder := (parse_inOrder h).1
  constructor
  · intro hseparate
    exact (variableNames_nodup horder hbegins).mp hseparate.own.names
  · intro hapart
    have hnames := (variableNames_nodup horder hbegins).mpr hapart
    refine ⟨?_, ?_, ?_, own_of_nodup hbegins hnames ctx.env⟩
    · intro step cmd hstarts hshell
      obtain ⟨-, line, hline, hargs, -⟩ := starts_line h hbegins hstarts hshell
      exact ⟨line, hline, hargs⟩
    · intro vars' ctx' step step' cmd cmd' hbegins' hstarts hstarts' hid hshell
      obtain ⟨hin, line, -, hargs, _, _, _, _, haction⟩ := starts_line h hbegins hstarts hshell
      -- The step is the same one in both runs, and its line is in its action.
      have hsame : step = step' := by
        obtain ⟨w, k, hk, rfl, -⟩ := hstarts'
        exact horder.named hin ((phases_sure hbegins' horder).steps k hk).1 hid
      subst hsame
      obtain ⟨-, line', -, hargs', _, _, _, _, haction'⟩ :=
        starts_line h hbegins' hstarts' hshell
      rw [haction] at haction'
      cases haction'
      rw [hargs, hargs']
    · intro step cmd hstarts
      obtain ⟨w, k, hk, rfl, read, hstart⟩ := hstarts
      have hsame := ((phases_sure hbegins horder).steps k hk).2.2
      have hbase : ctx.base k.vars = ctx.base vars := by
        rw [Context.base, hsame.processEnv]
        rfl
      exact hbase ▸ start_env hstart

def anyContext : Context where
  env := [("PATH", "/bin")]
  worktree := "/shop/basket"
  stepDir cwd := .ok ("/shop/basket/" ++ cwd)
  findProgram name _ := some ("/bin/" ++ name)
  shell := "/bin/sh"

theorem server_separate : Separate (serverReader [bareInput 5 "user" true]) ""
    (serverTest askedUser) (serverVars [("user", "ann")]) anyContext ↔
      Apart (serverTest askedUser) :=
  variables_separate server_accepted server_begins anyContext

def askedTwice : List Input :=
  [⟨"user-name", .text, "user-name", true, none, []⟩,
    ⟨"user_name", .text, "user_name", true, none, []⟩]

def twoNames : Pairs := [("user-name", "ann"), ("user_name", "bob")]

theorem twice_accepted :
    parse (serverReader [bareInput 5 "user-name" true, bareInput 6 "user_name" true]) "" =
      .ok (serverTest askedTwice) := by decide +kernel

theorem twice_begins : Begins (serverTest askedTwice) (serverVars twoNames) :=
  ⟨⟨twoNames, twoNames, by decide +kernel, .refl _⟩, nodup_nil, rfl⟩

def served : Weather where
  turn id := .ended (if id = "server" then .started 7 none else .exited (some 0) [])
  skipped := true
  read _ _ := ""
  outputDir := "/out"

/-- The server starts, and has the second input's value in the variable of the first. -/
theorem first_input_lost : ∃ (reader : Reader) (text : String) (test : Test) (vars : Vars)
    (step : Step) (cmd : Command), parse reader text = .ok test ∧ Begins test vars ∧
    Starts test vars anyContext step cmd ∧ vars.inputs.lookup "user-name" = some "ann" ∧
    getEnv cmd.env (inputName "user-name") = some "bob" := by
  let step : Step := ⟨"server", .start "serve" [] none []⟩
  let cmd := anyContext.command (serverVars twoNames) "/bin/serve" [] "/shop/basket" []
  have hcarried : (⟨.steps, step, serverVars twoNames, .started 7 none⟩ : Carried) ∈
      (phases served (serverTest askedTwice) (serverVars twoNames)).carried :=
    mem_cons_of_mem _ (mem_cons_of_mem _ (mem_singleton_self _))
  exact ⟨_, "", _, _, step, cmd, twice_accepted, twice_begins,
    ⟨served, _, hcarried, rfl, fun _ => "", rfl⟩, rfl, by decide +kernel⟩

end Yardsort.Smoke
