import OctetMachine.CommandLine.Arguments

/-!
# Options that ask for messages

Arguments are taken from left to right, an option together with the value behind it. What an
argument does to the program and the settings file of a draft depends on nothing else of the draft.
So the options that turn tracing or statistics on or choose a log filter may stand or be missing at
any place: what is to be run stays the same. `SeparatesDiagnostics` says so of any libraries, and
those for texts are shown to be of this kind.
-/

namespace OctetMachine.CommandLine

namespace Draft

/-- Two drafts of the same program and the same settings file. -/
structure Agrees (d d' : Draft) : Prop where
  program : d'.program = d.program
  settingsFile : d'.settingsFile = d.settingsFile

theorem Agrees.refl (d : Draft) : d.Agrees d := ⟨rfl, rfl⟩

theorem Agrees.symm {d d' : Draft} (h : d.Agrees d') : d'.Agrees d :=
  ⟨h.program.symm, h.settingsFile.symm⟩

theorem Agrees.trans {d₁ d₂ d₃ : Draft} (h : d₁.Agrees d₂) (h' : d₂.Agrees d₃) : d₁.Agrees d₃ :=
  ⟨h'.program.trans h.program, h'.settingsFile.trans h.settingsFile⟩

/-- Takes an argument that is written like an option. -/
def takeOption (d : Draft) (option : String) : Except Stop (Draft × Option Setting) :=
  match option.toList with
  | '-' :: '-' :: text => d.takeLong text
  | text => d.takeGroup (text.drop 1)

/-! ## One argument -/

theorem agrees_turnOn {d e : Draft} {s : Switch} (h : d.turnOn s = .ok e) : d.Agrees e := by
  cases s with
  | tracing =>
    simp only [turnOn] at h
    split at h
    · cases h
    · cases h
      exact ⟨rfl, rfl⟩
  | statistics =>
    simp only [turnOn] at h
    split at h
    · cases h
    · cases h
      exact ⟨rfl, rfl⟩
  | version => cases h
  | help => cases h

theorem agrees_give_logFilter {d e : Draft} {value : List Char}
    (h : d.give value .logFilter = .ok e) : d.Agrees e := by
  simp only [give] at h
  split at h
  · cases h
  · cases h
    exact ⟨rfl, rfl⟩

theorem Agrees.give {d d' e e' : Draft} (h : d.Agrees d') {value : List Char} {s : Setting}
    (he : d.give value s = .ok e) (he' : d'.give value s = .ok e') : e.Agrees e' := by
  cases s with
  | logFilter => exact (agrees_give_logFilter he).symm.trans (h.trans (agrees_give_logFilter he'))
  | settingsFile =>
    simp only [Draft.give] at he he'
    split at he
    · cases he
    · split at he'
      · cases he'
      · cases he
        cases he'
        exact ⟨h.program, rfl⟩

theorem Agrees.addProgram {d d' e e' : Draft} (h : d.Agrees d') {path : String}
    (he : d.addProgram path = .ok e) (he' : d'.addProgram path = .ok e') : e.Agrees e' := by
  simp only [Draft.addProgram] at he he'
  split at he
  · cases he
  · split at he'
    · cases he'
    · cases he
      cases he'
      exact ⟨rfl, h.settingsFile⟩

/-- Only the first of some paths can be added, and only to a draft without one. -/
theorem program_of_addProgram {d e : Draft} {path : String} (h : d.addProgram path = .ok e) :
    d.program = none ∧ e.program = some path := by
  simp only [Draft.addProgram] at h
  split at h
  next => cases h
  next hfree =>
    cases h
    simp only [Bool.or_eq_true, not_or, Option.not_isSome_iff_eq_none] at hfree
    exact ⟨hfree.1, rfl⟩

/-- Two drafts stay in agreement when a switch is turned on in each, be it the same or not. -/
theorem Agrees.turnOn {d d' e e' : Draft} (h : d.Agrees d') {s s' : Switch}
    (he : d.turnOn s = .ok e) (he' : d'.turnOn s' = .ok e') : e.Agrees e' :=
  (agrees_turnOn he).symm.trans (h.trans (agrees_turnOn he'))

/-- An answer after which no value is to come. -/
theorem eq_ok_of_map_none {x : Except Stop Draft} {e : Draft} {s : Option Setting}
    (h : x.map (fun d ↦ (d, none)) = .ok (e, s)) : x = .ok e ∧ s = none := by
  cases x with
  | error => cases h
  | ok =>
    cases h
    exact ⟨rfl, rfl⟩

theorem Agrees.giveAttached {d d' e e' : Draft} {s s' : Option Setting} (h : d.Agrees d')
    {value : List Char} {setting : Setting}
    (he : (d.give value setting).map (fun d ↦ (d, none)) = .ok (e, s))
    (he' : (d'.give value setting).map (fun d ↦ (d, none)) = .ok (e', s')) :
    e.Agrees e' ∧ s' = s := by
  obtain ⟨hgive, rfl⟩ := eq_ok_of_map_none he
  obtain ⟨hgive', rfl⟩ := eq_ok_of_map_none he'
  exact ⟨h.give hgive hgive', rfl⟩

theorem Agrees.takeGroup {d d' e e' : Draft} {s s' : Option Setting} (h : d.Agrees d')
    {letters : List Char} (he : d.takeGroup letters = .ok (e, s))
    (he' : d'.takeGroup letters = .ok (e', s')) : e.Agrees e' ∧ s' = s := by
  induction letters generalizing d d' with
  | nil =>
    cases he
    cases he'
    exact ⟨h, rfl⟩
  | cons c rest ih =>
    simp only [Draft.takeGroup] at he he'
    split at he
    next => cases he
    next hname =>
      simp only [hname] at he'
      split at he
      next => cases he
      next hon =>
        split at he'
        next => cases he'
        next hon' => exact ih (h.turnOn hon hon') he he'
    next hname =>
      simp only [hname] at he'
      split at he
      next =>
        cases he
        cases he'
        exact ⟨h, rfl⟩
      next => exact h.giveAttached he he'
      next hempty hequals =>
        split at he'
        next => exact absurd rfl hempty
        next value => exact absurd rfl (hequals value)
        next => exact h.giveAttached he he'

theorem Agrees.takeLong {d d' e e' : Draft} {s s' : Option Setting} (h : d.Agrees d')
    {text : List Char} (he : d.takeLong text = .ok (e, s))
    (he' : d'.takeLong text = .ok (e', s')) : e.Agrees e' ∧ s' = s := by
  simp only [Draft.takeLong] at he he'
  split at he
  next => cases he
  next hname hvalue =>
    simp only [hname, hvalue] at he'
    obtain ⟨hon, rfl⟩ := eq_ok_of_map_none he
    obtain ⟨hon', rfl⟩ := eq_ok_of_map_none he'
    exact ⟨h.turnOn hon hon', rfl⟩
  next => cases he
  next hname hvalue =>
    simp only [hname, hvalue] at he'
    cases he
    cases he'
    exact ⟨h, rfl⟩
  next hname hvalue =>
    simp only [hname, hvalue] at he'
    exact h.giveAttached he he'

theorem Agrees.takeOption {d d' e e' : Draft} {s s' : Option Setting} (h : d.Agrees d')
    {option : String} (he : d.takeOption option = .ok (e, s))
    (he' : d'.takeOption option = .ok (e', s')) : e.Agrees e' ∧ s' = s := by
  simp only [Draft.takeOption] at he he'
  split at he
  next htext =>
    simp only [htext] at he'
    exact h.takeLong he he'
  next hshort =>
    split at he'
    next text htext => exact absurd htext (hshort text)
    next => exact h.takeGroup he he'

/-- Behind `--` there is at most one path, and none if the draft has its program. -/
theorem foldlM_addProgram {d e : Draft} {paths : List String}
    (h : paths.foldlM Draft.addProgram d = .ok e) :
    paths = [] ∧ e = d ∨ ∃ path, paths = [path] ∧ d.addProgram path = .ok e := by
  match paths with
  | [] =>
    cases h
    exact .inl ⟨rfl, rfl⟩
  | path :: rest =>
    rw [List.foldlM_cons] at h
    cases hpath : d.addProgram path with
    | error => simp [hpath, bind, Except.bind] at h
    | ok m =>
      rw [hpath] at h
      match rest with
      | [] =>
        cases h
        exact .inr ⟨path, rfl, hpath⟩
      | second :: rest =>
        change (second :: rest).foldlM Draft.addProgram m = .ok e at h
        rw [List.foldlM_cons] at h
        cases hsecond : m.addProgram second with
        | error => simp [hsecond, bind, Except.bind] at h
        | ok =>
          have hfree := (program_of_addProgram hsecond).1
          rw [(program_of_addProgram hpath).2] at hfree
          cases hfree

theorem Agrees.addPrograms {d d' e e' : Draft} (h : d.Agrees d') {paths : List String}
    (he : paths.foldlM Draft.addProgram d = .ok e)
    (he' : paths.foldlM Draft.addProgram d' = .ok e') : e.Agrees e' := by
  obtain ⟨rfl, rfl⟩ | ⟨path, rfl, hadded⟩ := foldlM_addProgram he
  · cases he'
    exact h
  · obtain ⟨hempty, -⟩ | ⟨_, hpath, hadded'⟩ := foldlM_addProgram he'
    · cases hempty
    · cases hpath
      exact h.addProgram hadded hadded'

end Draft

/-! ## All arguments -/

/-- Arguments that are read to the end take one draft to another. -/
inductive Reads : Draft → List String → Draft → Prop where
  | done (d : Draft) : Reads d [] d
  | paths {d e : Draft} {rest : List String} (added : rest.foldlM Draft.addProgram d = .ok e) :
      Reads d ("--" :: rest) e
  | path {d m e : Draft} {a : String} {rest : List String} (unmarked : a ≠ "--")
      (plain : isOption a.toList = false) (added : d.addProgram a = .ok m) (more : Reads m rest e) :
      Reads d (a :: rest) e
  | option {d m e : Draft} {a : String} {rest : List String} (unmarked : a ≠ "--")
      (marked : isOption a.toList = true) (taken : d.takeOption a = .ok (m, none))
      (more : Reads m rest e) : Reads d (a :: rest) e
  | setting {d m n e : Draft} {a value : String} {s : Setting} {rest : List String}
      (unmarked : a ≠ "--") (marked : isOption a.toList = true)
      (taken : d.takeOption a = .ok (m, some s)) (plain : isOption value.toList = false)
      (given : m.give value.toList s = .ok n) (more : Reads n rest e) :
      Reads d (a :: value :: rest) e

theorem reads_of_readArguments {d e : Draft} {arguments : List String}
    (h : readArguments d arguments = .ok e) : Reads d arguments e := by
  fun_induction readArguments d arguments with
  | case1 d =>
    cases h
    exact .done _
  | case2 d a rest hpaths =>
    cases eq_of_beq hpaths
    exact .paths h
  | case4 d a rest hpaths hmarked _ m htaken ih =>
    exact .option (mt beq_iff_eq.2 hpaths) hmarked htaken (ih h)
  | case8 d a hpaths hmarked _ m s htaken value rest hplain n hgiven ih =>
    exact .setting (mt beq_iff_eq.2 hpaths) hmarked htaken (Bool.not_eq_true _ ▸ hplain) hgiven
      (ih h)
  | case10 d a rest hpaths hplain m hadded ih =>
    exact .path (mt beq_iff_eq.2 hpaths) (Bool.not_eq_true _ ▸ hplain) hadded (ih h)
  | _ => cases h

theorem Reads.of_paths {d e : Draft} {rest : List String} (h : Reads d ("--" :: rest) e) :
    rest.foldlM Draft.addProgram d = .ok e := by
  cases h with
  | paths added => exact added
  | path unmarked => exact absurd rfl unmarked
  | option unmarked => exact absurd rfl unmarked
  | setting unmarked => exact absurd rfl unmarked

/-- Two readings that begin with the same argument, from drafts in agreement: they go on from drafts
in agreement, or each with a value of its own for the same setting. -/
theorem Reads.common_first {d d' e e' : Draft} {a : String} {rest rest' : List String}
    (he : Reads d (a :: rest) e) (he' : Reads d' (a :: rest') e') (h : d.Agrees d')
    (hpaths : a ≠ "--") :
    (∃ m m', m.Agrees m' ∧ Reads m rest e ∧ Reads m' rest' e') ∨
      ∃ value tail value' tail', rest = value :: tail ∧ rest' = value' :: tail' ∧
        isOption value'.toList = false ∧
        (value' = value → ∃ n n', n.Agrees n' ∧ Reads n tail e ∧ Reads n' tail' e') := by
  cases he with
  | paths => exact absurd rfl hpaths
  | path _ plain added more =>
    cases he' with
    | paths => exact absurd rfl hpaths
    | path _ _ added' more' => exact .inl ⟨_, _, h.addProgram added added', more, more'⟩
    | option _ marked => cases plain.symm.trans marked
    | setting _ marked => cases plain.symm.trans marked
  | option _ marked taken more =>
    cases he' with
    | paths => exact absurd rfl hpaths
    | path _ plain => cases plain.symm.trans marked
    | option _ _ taken' more' => exact .inl ⟨_, _, (h.takeOption taken taken').1, more, more'⟩
    | setting _ _ taken' => cases (h.takeOption taken taken').2
  | setting _ marked taken _ given more =>
    cases he' with
    | paths => exact absurd rfl hpaths
    | path _ plain => cases plain.symm.trans marked
    | option _ _ taken' => cases (h.takeOption taken taken').2
    | setting _ _ taken' plain' given' more' =>
      obtain ⟨hagrees, hsetting⟩ := h.takeOption taken taken'
      cases hsetting
      refine .inr ⟨_, _, _, _, rfl, rfl, plain', ?_⟩
      rintro rfl
      exact ⟨_, _, hagrees.give given given', more, more'⟩

/-- Readings of the same arguments, from drafts in agreement, come to drafts in agreement. -/
theorem Reads.agrees {d d' e e' : Draft} {arguments : List String} (he : Reads d arguments e)
    (he' : Reads d' arguments e') (h : d.Agrees d') : e.Agrees e' := by
  -- By the number of arguments, since an option may take the next one as its value.
  induction hlength : arguments.length using Nat.strongRecOn generalizing arguments d d' with
  | ind length ih =>
    match arguments with
    | [] =>
      cases he
      cases he'
      exact h
    | a :: rest =>
      have hshorter : rest.length < length := by
        rw [← hlength]
        exact Nat.lt_succ_self _
      by_cases hpaths : a = "--"
      · subst hpaths
        exact h.addPrograms he.of_paths he'.of_paths
      · obtain ⟨m, m', hm, hmore, hmore'⟩ |
          ⟨value, tail, value', tail', hrest, hrest', -, hgo⟩ := he.common_first he' h hpaths
        · exact ih _ hshorter hmore hmore' hm rfl
        · cases hrest.symm.trans hrest'
          obtain ⟨n, n', hn, hmore, hmore'⟩ := hgo rfl
          refine ih _ ?_ hmore hmore' hn rfl
          rw [hrest] at hshorter
          exact Nat.lt_of_succ_lt hshorter

/-- What an option is read as, alone or with the next argument as its value. -/
theorem Reads.of_option {d e : Draft} {a : String} {rest : List String} (h : Reads d (a :: rest) e)
    (hpaths : a ≠ "--") (hmarked : isOption a.toList = true) :
    (∃ m, d.takeOption a = .ok (m, none) ∧ Reads m rest e) ∨
      ∃ m s value tail n, rest = value :: tail ∧ d.takeOption a = .ok (m, some s) ∧
        isOption value.toList = false ∧ m.give value.toList s = .ok n ∧ Reads n tail e := by
  cases h with
  | paths => exact absurd rfl hpaths
  | path _ plain => cases plain.symm.trans hmarked
  | option _ _ taken more => exact .inl ⟨_, taken, more⟩
  | setting _ _ taken plain given more =>
    exact .inr ⟨_, _, _, _, _, rfl, taken, plain, given, more⟩

/-! ## Diagnostic options -/

/-- Arguments that ask for a trace, for statistics or for a log filter, and for nothing else. -/
inductive Diagnostic : List String → Prop where
  | trace : Diagnostic ["--trace"]
  | statistics : Diagnostic ["--stats"]
  | letters (first : Char) (rest : List Char) (known : ∀ c ∈ first :: rest, c = 't' ∨ c = 's') :
      Diagnostic [String.ofList ('-' :: first :: rest)]
  | logFilter (value : String) : Diagnostic ["--log-level", value]
  | logFilterAttached (value : String) : Diagnostic ["--log-level=" ++ value]

namespace Diagnostic

theorem agrees_takeGroup {d e : Draft} {s : Option Setting} {letters : List Char}
    (h : ∀ c ∈ letters, c = 't' ∨ c = 's') (he : d.takeGroup letters = .ok (e, s)) :
    d.Agrees e ∧ s = none := by
  induction letters generalizing d with
  | nil =>
    cases he
    exact ⟨.refl _, rfl⟩
  | cons c rest ih =>
    have hrest : ∀ c ∈ rest, c = 't' ∨ c = 's' := fun c hc ↦ h c (List.mem_cons_of_mem _ hc)
    have hswitch : ∃ w, Name.ofShort? c = some (.switch w) := by
      rcases h c List.mem_cons_self with rfl | rfl
      · exact ⟨.tracing, rfl⟩
      · exact ⟨.statistics, rfl⟩
    obtain ⟨w, hw⟩ := hswitch
    simp only [Draft.takeGroup, hw] at he
    split at he
    next => cases he
    next m hon =>
      obtain ⟨hagrees, hs⟩ := ih hrest he
      exact ⟨(Draft.agrees_turnOn hon).trans hagrees, hs⟩

/-- A diagnostic option starts with an argument that is neither a value nor a path. -/
theorem exists_cons {added : List String} (h : Diagnostic added) :
    ∃ a rest, added = a :: rest ∧ a ≠ "--" ∧ isOption a.toList = true := by
  cases h with
  | trace => exact ⟨_, _, rfl, by decide, by decide⟩
  | statistics => exact ⟨_, _, rfl, by decide, by decide⟩
  | letters first rest known =>
    refine ⟨_, _, rfl, ?_, ?_⟩
    · intro hdashes
      have hfirst : first = '-' := by
        have htoList := congrArg String.toList hdashes
        rw [String.toList_ofList] at htoList
        injection htoList with _ hfirst
        injection hfirst
      rcases known first List.mem_cons_self with rfl | rfl
      · cases hfirst
      · cases hfirst
    · rw [String.toList_ofList]
      rfl
  | logFilter value => exact ⟨_, _, rfl, by decide, by decide⟩
  | logFilterAttached value =>
    refine ⟨_, _, rfl, ?_, ?_⟩
    · intro hdashes
      have htoList := congrArg String.toList hdashes
      rw [String.toList_append] at htoList
      cases htoList
    · rw [String.toList_append]
      rfl

theorem agrees_takeOption {d e : Draft} {s : Option Setting} {option : String}
    (h : Diagnostic [option]) (he : d.takeOption option = .ok (e, s)) :
    d.Agrees e ∧ s = none := by
  cases h with
  | trace =>
    obtain ⟨hon, rfl⟩ := Draft.eq_ok_of_map_none he
    exact ⟨Draft.agrees_turnOn hon, rfl⟩
  | statistics =>
    obtain ⟨hon, rfl⟩ := Draft.eq_ok_of_map_none he
    exact ⟨Draft.agrees_turnOn hon, rfl⟩
  | letters first rest known =>
    have hgroup : d.takeOption (String.ofList ('-' :: first :: rest)) =
        d.takeGroup (first :: rest) := by
      rcases known first List.mem_cons_self with rfl | rfl
      · rw [Draft.takeOption, String.toList_ofList]
        rfl
      · rw [Draft.takeOption, String.toList_ofList]
        rfl
    rw [hgroup] at he
    exact agrees_takeGroup known he
  | logFilterAttached value =>
    have hlong : d.takeOption ("--log-level=" ++ value) =
        (d.give value.toList .logFilter).map fun d ↦ (d, none) := by
      rw [Draft.takeOption, String.toList_append]
      rfl
    rw [hlong] at he
    obtain ⟨hgive, rfl⟩ := Draft.eq_ok_of_map_none he
    exact ⟨Draft.agrees_give_logFilter hgive, rfl⟩

/-- A diagnostic option is read without an effect on what is to be run. -/
theorem exists_reads {d e : Draft} {added rest : List String} (h : Diagnostic added)
    (hreads : Reads d (added ++ rest) e) : ∃ m, d.Agrees m ∧ Reads m rest e := by
  obtain ⟨a, values, rfl, hpaths, hmarked⟩ := h.exists_cons
  rw [List.cons_append] at hreads
  have hread := hreads.of_option hpaths hmarked
  match values with
  | [] =>
    obtain ⟨m, htaken, hmore⟩ | ⟨m, s, _, _, _, -, htaken, -⟩ := hread
    · exact ⟨m, (h.agrees_takeOption htaken).1, hmore⟩
    · cases (h.agrees_takeOption htaken).2
  | value :: values =>
    cases h with
    | logFilter =>
      obtain ⟨m, htaken, -⟩ | ⟨m, s, value, tail, n, htail, htaken, -, hgiven, hmore⟩ := hread
      · cases htaken
      · cases htail
        cases htaken
        exact ⟨n, Draft.agrees_give_logFilter hgiven, hmore⟩

end Diagnostic

/-- Behind `--` an option is the path of the program, so there is none without it. -/
theorem Diagnostic.program_eq_none {d d' e e' : Draft} {before added after : List String}
    (hadded : Diagnostic added) (h : d.Agrees d')
    (he : (before ++ after).foldlM Draft.addProgram d = .ok e)
    (he' : (before ++ (added ++ after)).foldlM Draft.addProgram d' = .ok e') :
    e.program = none := by
  obtain ⟨a, values, rfl, -⟩ := hadded.exists_cons
  obtain ⟨hempty, -⟩ | ⟨path, hpath, hprogram⟩ := Draft.foldlM_addProgram he'
  · simp at hempty
  · have hnone : before ++ after = [] := by
      have hlength := congrArg List.length hpath
      simp only [List.length_append, List.length_cons, List.length_nil] at hlength
      apply List.eq_nil_of_length_eq_zero
      rw [List.length_append]
      omega
    rw [hnone] at he
    cases he
    rw [← h.program]
    exact (Draft.program_of_addProgram hprogram).1

/-- Readings of arguments with and without a diagnostic option come to drafts in agreement, if there
is a program without it. -/
theorem Reads.agrees_of_diagnostic {d d' e e' : Draft} {before added after : List String}
    (hadded : Diagnostic added) (he : Reads d (before ++ after) e)
    (he' : Reads d' (before ++ (added ++ after)) e') (h : d.Agrees d')
    (hprogram : e.program ≠ none) : e.Agrees e' := by
  induction hlength : before.length using Nat.strongRecOn generalizing before d d' with
  | ind length ih =>
    match before with
    | [] =>
      obtain ⟨m, hm, hmore⟩ := hadded.exists_reads he'
      exact he.agrees hmore (h.trans hm)
    | b :: before =>
      have hshorter : before.length < length := by
        rw [← hlength]
        exact Nat.lt_succ_self _
      by_cases hpaths : b = "--"
      · -- From here on the option would be a path.
        subst hpaths
        exact absurd (hadded.program_eq_none h he.of_paths he'.of_paths) hprogram
      · obtain ⟨m, m', hm, hmore, hmore'⟩ |
          ⟨value, tail, value', tail', hrest, hrest', hplain, hgo⟩ :=
          Reads.common_first he he' h hpaths
        · exact ih _ hshorter hmore hmore' hm rfl
        · match before with
          | [] =>
            -- The value would be the option that was added.
            obtain ⟨a, values, rfl, -, hmarked⟩ := hadded.exists_cons
            cases hrest'
            cases hplain.symm.trans hmarked
          | c :: before =>
            cases hrest
            cases hrest'
            obtain ⟨n, n', hn, hmore, hmore'⟩ := hgo rfl
            exact ih _ (Nat.lt_of_succ_lt hshorter) hmore hmore' hn rfl

theorem exists_draft_of_invocationOf {arguments : List String} {i : Invocation String}
    (h : invocationOf arguments = .ok i) :
    ∃ d, Reads {} arguments d ∧ d.program = some i.program ∧ d.settingsFile = i.settingsFile := by
  simp only [invocationOf, bind, Except.bind] at h
  split at h
  next => cases h
  next d hread =>
    simp only [Draft.invocation] at h
    split at h
    next => cases h
    next program hprogram =>
      cases h
      exact ⟨d, reads_of_readArguments hread, hprogram, rfl⟩

/-- Arguments with and without a diagnostic option name the same program and settings file. -/
theorem invocationOf_of_diagnostic {before added after : List String}
    {i i' : Invocation String}
    (hadded : Diagnostic added) (hi : invocationOf (before ++ after) = .ok i)
    (hi' : invocationOf (before ++ (added ++ after)) = .ok i') :
    i'.program = i.program ∧ i'.settingsFile = i.settingsFile := by
  obtain ⟨d, hd, hprogram, hfile⟩ := exists_draft_of_invocationOf hi
  obtain ⟨d', hd', hprogram', hfile'⟩ := exists_draft_of_invocationOf hi'
  have hagrees : d.Agrees d' := hd.agrees_of_diagnostic hadded hd' (.refl _) (by simp [hprogram])
  constructor
  · apply Option.some.inj
    rw [← hprogram', ← hprogram, hagrees.program]
  · rw [← hfile', ← hfile, hagrees.settingsFile]

/-! ## Libraries -/

/-- A diagnostic option among arguments, which hold texts through `argument`, leaves the program and
the settings file to the other arguments. -/
structure Libraries.SeparatesDiagnostics {α π : Type} (l : Libraries α π) (argument : String → α) :
    Prop where
  program : ∀ before added after i i', Diagnostic added →
    l.readArguments (before ++ after) = .ok i →
      l.readArguments (before ++ (added.map argument ++ after)) = .ok i' → i'.program = i.program
  settingsFile : ∀ before added after i i', Diagnostic added →
    l.readArguments (before ++ after) = .ok i →
      l.readArguments (before ++ (added.map argument ++ after)) = .ok i' →
        i'.settingsFile = i.settingsFile

theorem invocationOf_eq_ok_of_readArguments {report : Stop → Report}
    {describe : JsonText.Problem → String} {readFilter : String → Option (Option Journal.Filter)}
    {warnings : Journal.Filter} {arguments : List String} {i : Invocation String}
    (h : (Libraries.ofTexts report describe readFilter warnings).readArguments arguments = .ok i) :
    invocationOf arguments = .ok i :=
  mapError_eq_ok_iff.1 h

theorem separatesDiagnostics_ofTexts (report : Stop → Report)
    (describe : JsonText.Problem → String) (readFilter : String → Option (Option Journal.Filter))
    (warnings : Journal.Filter) :
    (Libraries.ofTexts report describe readFilter warnings).SeparatesDiagnostics id := by
  constructor
  case program =>
    intro before added after i i' hadded hi hi'
    rw [List.map_id] at hi'
    exact (invocationOf_of_diagnostic hadded (invocationOf_eq_ok_of_readArguments hi)
      (invocationOf_eq_ok_of_readArguments hi')).1
  case settingsFile =>
    intro before added after i i' hadded hi hi'
    rw [List.map_id] at hi'
    exact (invocationOf_of_diagnostic hadded (invocationOf_eq_ok_of_readArguments hi)
      (invocationOf_eq_ok_of_readArguments hi')).2

end OctetMachine.CommandLine
