import ChipEight.Console.Transcript
import ChipEight.Proofs.Course
import ChipEight.Proofs.Performance
import ChipEight.Proofs.TypedKeys

/-!
# The terminal program

What the terminal program leaves behind, for all words after its name, all contents of the files
that they name and all input.  The host has to have a logger that leaves nothing but errors, and
room for the key queue and the screen; however it splits the settings into entries is as good.  A
program that is run has to be tame: by itself it ends in a fault, it gets its keys by waiting for
them only, it looks neither at the delay timer nor, without a seed, at random bytes, and no more
keys are typed than the queue holds.

Main results:

- `Console.start_cases`: the first of several obstacles is the one that is reported, and a program
  is run if there is none.
- `Console.ComesTo.of_tracks`: a program that is tame leaves one transcript behind, whoever moves
  when.
- `Console.terminal_leaves_transcript`: what this transcript says.
- `Console.comesTo_crash`: what is left behind if there is no room.
- `Console.Departs`: where one of the conditions does not hold, the transcript can be another one.
-/

namespace ChipEight.Console

/-! ## Starting -/

/-- The failure with which something ended, if it did not succeed. -/
def failuresOf {α : Type} : Except Failure α → List Failure
  | .ok _ => []
  | .error failure => [failure]

/-- What is wrong with the size of the screen. -/
def screenFailures (settings : Settings) : List Failure :=
  if settings.screenWidth = 0 ∨ settings.screenHeight = 0 then
    [.stopped (.emptyScreen settings.screenWidth settings.screenHeight)]
  else []

/-- What is wrong with the size of the program. -/
def sizeFailures (program : List UInt8) : List Failure :=
  if 3584 < program.length then [.stopped (.programTooLarge program.length 3584)] else []

/-- Everything that keeps a program from being run, if there is room for it: the settings cannot be
had, the program cannot be read, the screen has no cells, the program is too long. -/
def obstacles (host : Host) (settingsFile : Option Contents) (programFile : Contents) :
    List Failure :=
  failuresOf (chosenSettings host settingsFile) ++ failuresOf programFile.program ++
    (chosenSettings host settingsFile).toOption.toList.flatMap screenFailures ++
    programFile.program.toOption.toList.flatMap sizeFailures

section Files

variable {host : Host} {settingsFile : Option Contents} {programFile : Contents}
  {settings : Settings} {program : List UInt8}

theorem obstacles_of_ok (hsettings : chosenSettings host settingsFile = .ok settings)
    (hprogram : programFile.program = .ok program) :
    obstacles host settingsFile programFile = screenFailures settings ++ sizeFailures program := by
  simp [obstacles, hsettings, hprogram, failuresOf, Except.toOption]

theorem start_of_settings_error {failure : Failure}
    (hsettings : chosenSettings host settingsFile = .error failure) :
    start host settingsFile programFile = .error (.failure failure) := by
  rw [start, hsettings]
  rfl

theorem start_of_program_error {failure : Failure}
    (hsettings : chosenSettings host settingsFile = .ok settings)
    (hprogram : programFile.program = .error failure) :
    start host settingsFile programFile = .error (.failure failure) := by
  rw [start, hsettings, hprogram]
  rfl

theorem start_of_noRoom (hsettings : chosenSettings host settingsFile = .ok settings)
    (hprogram : programFile.program = .ok program) (hroom : ¬ host.HasRoom settings) :
    start host settingsFile programFile = .error .noRoom := by
  rw [start, hsettings, hprogram]
  exact if_neg hroom

theorem start_of_room (hsettings : chosenSettings host settingsFile = .ok settings)
    (hprogram : programFile.program = .ok program) (hroom : host.HasRoom settings) :
    start host settingsFile programFile =
      ((Machine.build settings host.key).mapError .ofFault).bind fun machine =>
        (machine.load program).mapError .ofFault := by
  rw [start, hsettings, hprogram]
  exact if_pos hroom

end Files

/-- The first obstacle is the failure that is reported, and without any a machine is built and the
program loaded. -/
theorem start_cases {host : Host} {settingsFile : Option Contents} {programFile : Contents}
    (hroom : ∀ settings program, chosenSettings host settingsFile = .ok settings →
      programFile.program = .ok program → host.HasRoom settings) :
    (∃ failure, (obstacles host settingsFile programFile).head? = some failure ∧
        start host settingsFile programFile = .error (.failure failure)) ∨
      ∃ settings program, obstacles host settingsFile programFile = [] ∧
        chosenSettings host settingsFile = .ok settings ∧ programFile.program = .ok program ∧
        start host settingsFile programFile =
          .ok ((Machine.fresh settings host.key).loaded program) := by
  cases hsettings : chosenSettings host settingsFile with
  | error failure =>
    exact .inl ⟨failure, by rw [obstacles, hsettings]; rfl, start_of_settings_error hsettings⟩
  | ok settings =>
    cases hprogram : programFile.program with
    | error failure =>
      refine .inl ⟨failure, ?_, start_of_program_error hsettings hprogram⟩
      rw [obstacles, hsettings, hprogram]
      rfl
    | ok program =>
      rw [obstacles_of_ok hsettings hprogram,
        start_of_room hsettings hprogram (hroom settings program hsettings hprogram)]
      by_cases hscreen : settings.screenWidth = 0 ∨ settings.screenHeight = 0
      · have hbuild : Machine.build settings host.key =
            .error (.emptyScreen settings.screenWidth settings.screenHeight) := if_pos hscreen
        rw [screenFailures, if_pos hscreen, hbuild]
        exact .inl ⟨_, rfl, rfl⟩
      · have hbuild : Machine.build settings host.key = .ok (Machine.fresh settings host.key) :=
          if_neg hscreen
        rw [screenFailures, if_neg hscreen, hbuild]
        by_cases hsize : 3584 < program.length
        · rw [sizeFailures, if_pos hsize]
          exact .inl ⟨_, rfl, congrArg (Except.mapError _) (Machine.load_of_lt _ hsize)⟩
        · rw [sizeFailures, if_neg hsize]
          exact .inr ⟨settings, program, rfl, rfl, rfl,
            congrArg (Except.mapError _) (Machine.load_of_le _ (Nat.not_lt.1 hsize))⟩

/-- Nothing that is logged on the way to the start is an error. -/
theorem Command.level_ne_error_of_mem_startLines {command : Command} {host : Host}
    {file : String → Contents} {line : LogLine} (h : line ∈ command.startLines host file) :
    line.level ≠ .error := by
  rw [startLines, List.cons_append, List.mem_cons, List.mem_append, List.mem_flatMap] at h
  rcases h with rfl | ⟨path, -, hsettings⟩ | hload
  · nofun
  · unfold settingsLines at hsettings
    split at hsettings
    · cases List.mem_singleton.1 hsettings
      nofun
    · cases hsettings
  · unfold loadLines at hload
    split at hload
    · exact Event.level_ne_error_of_mem_lines hload
    · cases hload

/-! ## All ways to end -/

/-- The terminal program can leave a transcript behind: it says how it is used, or something keeps
it from running a program, or it runs a program and ends after some moves. -/
inductive Ends (host : Host) (words : List String) (file : String → Contents) (input : List UInt8) :
    Transcript → Prop where
  | usage (hwords : Command.ofWords? words = none) :
      Ends host words file input ⟨usageCode, banner, none⟩
  | kept {command : Command} {obstacle : Obstacle} (hwords : Command.ofWords? words = some command)
      (hstart : start host (command.settings.map file) (file command.program) = .error obstacle) :
      Ends host words file input
        (obstacle.transcript host (host.loggedAll (command.startLines host file)))
  | played {command : Command} {machine : Machine} {count : Nat} {p : Performance} {t : Transcript}
      (hwords : Command.ofWords? words = some command)
      (hstart : start host (command.settings.map file) (file command.program) = .ok machine)
      (hreaches : (command.opening host file input machine).Reaches host count p)
      (ht : p.transcript? = some t) : Ends host words file input t

/-- Whoever moves when, the terminal program comes to an end, and leaves the same transcript behind.
A performance makes no more than a number of moves, and has ended where nobody can move.  One that
is played in a fixed order of preference for long enough has ended like this as well. -/
structure ComesTo (host : Host) (words : List String) (file : String → Contents)
    (input : List UInt8) (t : Transcript) (bound : Nat) : Prop where
  ends_iff : ∀ t', Ends host words file input t' ↔ t' = t
  performance : ∀ command machine, Command.ofWords? words = some command →
    start host (command.settings.map file) (file command.program) = .ok machine →
    ∀ count p, (command.opening host file input machine).Reaches host count p →
      count ≤ bound ∧ (p.Stuck host → p.transcript? = some t)
  transcript_eq : ∀ moves, host.transcript words file input moves = none ∨
    host.transcript words file input moves = some t
  transcript_of_lt : ∀ moves, bound < moves → host.transcript words file input moves = some t

namespace ComesTo

variable {host : Host} {words : List String} {file : String → Contents} {input : List UInt8}
  {command : Command}

theorem of_usage (hwords : Command.ofWords? words = none) :
    ComesTo host words file input ⟨usageCode, banner, none⟩ 0 := by
  have htranscript (moves : Nat) :
      host.transcript words file input moves = some ⟨usageCode, banner, none⟩ := by
    simp only [Host.transcript, hwords]
  refine ⟨?_, ?_, fun moves => .inr (htranscript moves), fun moves _ => htranscript moves⟩
  · intro t
    refine ⟨fun h => ?_, fun h => h ▸ .usage hwords⟩
    cases h with
    | usage => rfl
    | kept hother | played hother => cases hwords.symm.trans hother
  · intro command machine hother
    cases hwords.symm.trans hother

/-- An obstacle leaves the same behind whatever else the host does, if its logger is quiet. -/
theorem of_error (hquiet : host.Quiet) {obstacle : Obstacle}
    (hwords : Command.ofWords? words = some command)
    (hstart : start host (command.settings.map file) (file command.program) = .error obstacle) :
    ComesTo host words file input (obstacle.transcript host "") 0 := by
  have hlogged : host.loggedAll (command.startLines host file) = "" :=
    hquiet.loggedAll_eq fun _ => Command.level_ne_error_of_mem_startLines
  have htranscript (moves : Nat) :
      host.transcript words file input moves = some (obstacle.transcript host "") := by
    simp only [Host.transcript, hwords, hstart, hlogged]
  refine ⟨?_, ?_, fun moves => .inr (htranscript moves), fun moves _ => htranscript moves⟩
  · intro t
    constructor
    · intro h
      cases h with
      | usage hother => cases hwords.symm.trans hother
      | kept hother hkept =>
        cases hwords.symm.trans hother
        cases hstart.symm.trans hkept
        rw [hlogged]
      | played hother hstarted =>
        cases hwords.symm.trans hother
        cases hstart.symm.trans hstarted
    · rintro rfl
      rw [← hlogged]
      exact .kept hwords hstart
  · intro other machine hother hstarted
    cases hwords.symm.trans hother
    cases hstart.symm.trans hstarted

/-- A program whose session keeps to the run of a machine by itself leaves the frames and the fault
of that run behind. -/
theorem of_tracks (hquiet : host.Quiet) {machine : Machine} {seeded : Prop} {typing : List Key}
    {left : Nat} {o final : Outcome Recorder} {fault : Fault}
    (hwords : Command.ofWords? words = some command)
    (hstart : start host (command.settings.map file) (file command.program) = .ok machine)
    (htracks : (session machine (typedKeys input)).Tracks seeded typing left o final)
    (hfault : final.result = .error fault) :
    ComesTo host words file input
      (Performance.stoppedTranscript final.devices.frames.toList fault)
      ((command.opening host file input machine).weight typing left) := by
  have hlogged : host.loggedAll (command.startLines host file) = "" :=
    hquiet.loggedAll_eq fun _ => Command.level_ne_error_of_mem_startLines
  have hopening : (command.opening host file input machine).Tracks seeded typing left o final := by
    rw [Command.opening, hlogged]
    exact .opening htracks rfl
  have htranscript (moves : Nat) : host.transcript words file input moves =
      ((command.opening host file input machine).play host moves).transcript? := by
    simp only [Host.transcript, hwords, hstart]
  refine ⟨?_, ?_, ?_, ?_⟩
  · intro t
    constructor
    · intro h
      cases h with
      | usage hother => cases hwords.symm.trans hother
      | kept hother hkept =>
        cases hwords.symm.trans hother
        cases hstart.symm.trans hkept
      | played hother hstarted hreaches ht =>
        cases hwords.symm.trans hother
        cases hstart.symm.trans hstarted
        obtain ⟨_, _, _, hafter, -⟩ := hopening.reaches hquiet hreaches
        exact hafter.transcript?_eq hfault ht
    · rintro rfl
      -- Playing with more moves than there can be shows one way to end.
      obtain ⟨count, hreaches, -⟩ := (command.opening host file input machine).reaches_play host
        ((command.opening host file input machine).weight typing left + 1)
      obtain ⟨_, _, _, hafter, -⟩ := hopening.reaches hquiet hreaches
      exact .played hwords hstart hreaches
        (hafter.transcript?_of_stuck hquiet hfault
          (hopening.stuck_play hquiet (Nat.lt_succ_self _)))
  · intro other machine' hother hstarted count p hreaches
    cases hwords.symm.trans hother
    cases hstart.symm.trans hstarted
    obtain ⟨_, _, _, hafter, hcount⟩ := hopening.reaches hquiet hreaches
    exact ⟨by omega, hafter.transcript?_of_stuck hquiet hfault⟩
  · intro moves
    rw [htranscript]
    obtain ⟨count, hreaches, -⟩ := (command.opening host file input machine).reaches_play host moves
    obtain ⟨_, _, _, hafter, -⟩ := hopening.reaches hquiet hreaches
    cases ht : ((command.opening host file input machine).play host moves).transcript? with
    | none => exact .inl rfl
    | some t => exact .inr (congrArg some (hafter.transcript?_eq hfault ht))
  · intro moves hmoves
    rw [htranscript]
    obtain ⟨count, hreaches, -⟩ := (command.opening host file input machine).reaches_play host moves
    obtain ⟨_, _, _, hafter, -⟩ := hopening.reaches hquiet hreaches
    exact hafter.transcript?_of_stuck hquiet hfault (hopening.stuck_play hquiet hmoves)

end ComesTo

/-! ## What a transcript says -/

/-- The run of a program by itself on a machine that was built just now. -/
def soloRun (settings : Settings) (program : List UInt8) (key : ChaCha.Key) (keys : List Key) :
    Outcome Recorder :=
  ((Machine.fresh settings key).loaded program).solo keys

/-- The words ask for a program to be run, and a failure is the first thing that keeps it from being
run. -/
inductive Refuses (host : Host) (words : List String) (file : String → Contents)
    (failure : Failure) : Prop where
  | intro {path : String} {rest : List String} (hwords : words = "run" :: path :: rest)
      (hfirst : (obstacles host (rest.head?.map file) (file path)).head? = some failure)

/-- The words ask for a program to be run, and nothing keeps it from being run. -/
inductive Starts (host : Host) (words : List String) (file : String → Contents)
    (settings : Settings) (program : List UInt8) : Prop where
  | intro {path : String} {rest : List String} (hwords : words = "run" :: path :: rest)
      (hclear : obstacles host (rest.head?.map file) (file path) = [])
      (hsettings : chosenSettings host (rest.head?.map file) = .ok settings)
      (hprogram : (file path).program = .ok program)

/-- If the words ask for a program to be run, and the settings and the program can be had, then the
key queue and the screen find room. -/
def FindsRoom (host : Host) (words : List String) (file : String → Contents) : Prop :=
  ∀ path rest settings program, words = "run" :: path :: rest →
    chosenSettings host (rest.head?.map file) = .ok settings → (file path).program = .ok program →
    host.HasRoom settings

/-- A program that is run is tame by itself, with keys of which there are no more than the queue
holds, and ends in a fault within a number of steps. -/
def Tame (host : Host) (words : List String) (file : String → Contents) (keys : List Key)
    (key : ChaCha.Key) (steps : Nat) : Prop :=
  ∀ settings program, Starts host words file settings program →
    keys.length ≤ settings.keyBuffer ∧
      (soloRun settings program key keys).Tame (settings.seed.isSome = true) steps ∧
      ∃ fault, ((soloRun settings program key keys).run steps).result = .error fault

/-- The exit code tells whether the words ask for a program to be run.  Such a program is kept from
being run or it is run.  In the first case the first obstacle is reported and nothing is written.
In the second case the terminal is wiped and the screen written after each stroke, and the fault in
which the program ends is reported. -/
structure Transcript.Tells (t : Transcript) (host : Host) (words : List String)
    (file : String → Contents) (keys : List Key) (key : ChaCha.Key) (steps : Nat) : Prop where
  usage_iff : t.code = 64 ↔ ¬ ∃ path rest, words = "run" :: path :: rest
  failure_iff : t.code = 1 ↔ ∃ path rest, words = "run" :: path :: rest
  refused_or_ran : (∃ path rest, words = "run" :: path :: rest) →
    (∃ failure, Refuses host words file failure) ∨
      ∃ settings program, Starts host words file settings program
  refused : ∀ failure, Refuses host words file failure → t.output = "" ∧ t.failure = some failure
  ran : ∀ settings program, Starts host words file settings program →
    t.output =
        String.ofList
          (stream (Moment.pictures ((soloRun settings program key keys).moments steps))) ∧
      ∃ fault, ((soloRun settings program key keys).run steps).result = .error fault ∧
        t.failure = some (.stopped fault)

theorem Command.ofWords?_eq_none_iff {words : List String} :
    Command.ofWords? words = none ↔ ¬ ∃ path rest, words = "run" :: path :: rest := by
  unfold Command.ofWords?
  split
  · next path rest => exact iff_of_false nofun fun h => h ⟨path, rest, rfl⟩
  · next hother =>
    refine iff_of_true rfl ?_
    rintro ⟨path, rest, rfl⟩
    exact hother path rest rfl

/-- Machines that are built with different keys for random bytes resemble each other. -/
theorem resembles_fresh (settings : Settings) (key hostKey : ChaCha.Key) :
    (Machine.fresh settings hostKey).Resembles (settings.seed.isSome = true)
      (Machine.fresh settings key) where
  settings_eq := show settings = settings from rfl
  registers_eq := show ({} : Registers) = {} from rfl
  memory_eq := show Memory.initial = Memory.initial from rfl
  screen_eq := show Screen.dark settings.screenWidth settings.screenHeight = _ from rfl
  random_eq := by
    intro hseeded
    obtain ⟨own, hown⟩ := Option.isSome_iff_exists.1 hseeded
    show Generator.mk (Generator.keyFrom settings.seed hostKey) 0 [] =
      Generator.mk (Generator.keyFrom settings.seed key) 0 []
    rw [hown]
    rfl

section Tells

variable {host : Host} {words : List String} {file : String → Contents} {keys : List Key}
  {key : ChaCha.Key} {steps : Nat}

theorem Refuses.eq {failure other : Failure} (h : Refuses host words file failure)
    (hother : Refuses host words file other) : other = failure := by
  rcases h with ⟨rfl, hfirst⟩
  rcases hother with ⟨hsame, hother⟩
  cases hsame
  cases hfirst.symm.trans hother
  rfl

theorem Starts.eq {settings settings' : Settings} {program program' : List UInt8}
    (h : Starts host words file settings program)
    (hother : Starts host words file settings' program') :
    settings' = settings ∧ program' = program := by
  rcases h with ⟨rfl, -, hsettings, hprogram⟩
  rcases hother with ⟨hsame, -, hsettings', hprogram'⟩
  cases hsame
  cases hsettings.symm.trans hsettings'
  cases hprogram.symm.trans hprogram'
  exact ⟨rfl, rfl⟩

/-- What is kept from being run is not run. -/
theorem Refuses.not_starts {failure : Failure} (h : Refuses host words file failure)
    (settings : Settings) (program : List UInt8) : ¬ Starts host words file settings program := by
  rintro ⟨hsame, hclear⟩
  rcases h with ⟨rfl, hfirst⟩
  cases hsame
  rw [hclear] at hfirst
  cases hfirst

namespace Transcript.Tells

theorem of_usage (hwords : ¬ ∃ path rest, words = "run" :: path :: rest) :
    Transcript.Tells ⟨usageCode, banner, none⟩ host words file keys key steps where
  usage_iff := iff_of_true rfl hwords
  failure_iff := iff_of_false (show ¬ usageCode = 1 by decide) hwords
  refused_or_ran hrun := absurd hrun hwords
  refused _ := fun ⟨hsame, _⟩ => absurd ⟨_, _, hsame⟩ hwords
  ran _ _ := fun ⟨hsame, _, _, _⟩ => absurd ⟨_, _, hsame⟩ hwords

theorem of_refuses {failure : Failure} (h : Refuses host words file failure) :
    Transcript.Tells ⟨failureCode, "", some failure⟩ host words file keys key steps := by
  have hwords : ∃ path rest, words = "run" :: path :: rest := by
    rcases h with ⟨hwords, -⟩
    exact ⟨_, _, hwords⟩
  exact {
    usage_iff := iff_of_false (show ¬ failureCode = 64 by decide) (not_not.2 hwords)
    failure_iff := iff_of_true rfl hwords
    refused_or_ran := fun _ => .inl ⟨failure, h⟩
    refused := by
      intro other hother
      cases h.eq hother
      exact ⟨rfl, rfl⟩
    ran := fun settings program hstarts => absurd hstarts (h.not_starts settings program) }

theorem of_starts {settings : Settings} {program : List UInt8} {fault : Fault}
    (h : Starts host words file settings program)
    (hfault : ((soloRun settings program key keys).run steps).result = .error fault) :
    (Performance.stoppedTranscript
      ((soloRun settings program key keys).run steps).devices.frames.toList fault).Tells
      host words file keys key steps := by
  have hwords : ∃ path rest, words = "run" :: path :: rest := by
    rcases h with ⟨hwords, -, -, -⟩
    exact ⟨_, _, hwords⟩
  have hframes := Outcome.frames_run_of_unbounded (o := soloRun settings program key keys) rfl steps
  exact {
    usage_iff := iff_of_false (show ¬ failureCode = 64 by decide) (not_not.2 hwords)
    failure_iff := iff_of_true rfl hwords
    refused_or_ran := fun _ => .inr ⟨settings, program, h⟩
    refused := fun failure hrefused => absurd h (hrefused.not_starts settings program)
    ran := by
      intro settings' program' hstarts
      obtain ⟨rfl, rfl⟩ := h.eq hstarts
      exact ⟨congrArg (String.ofList ∘ stream) hframes, fault, hfault, rfl⟩ }

end Transcript.Tells

end Tells

/-- Every tame program comes to an end, and its transcript tells of the program by itself. -/
theorem exists_comesTo {host : Host} (hquiet : host.Quiet) {words : List String}
    {file : String → Contents} {input : List UInt8} {key : ChaCha.Key} {steps : Nat}
    (hroom : FindsRoom host words file) (htame : Tame host words file (typedKeys input) key steps) :
    ∃ t bound, t.Tells host words file (typedKeys input) key steps ∧
      ComesTo host words file input t bound := by
  by_cases hwords : ∃ path rest, words = "run" :: path :: rest
  · obtain ⟨path, rest, rfl⟩ := hwords
    have hcommand : Command.ofWords? ("run" :: path :: rest) =
        some { program := path, settings := rest.head? } := rfl
    rcases start_cases fun settings program => hroom path rest settings program rfl with
      ⟨failure, hfirst, hstart⟩ | ⟨settings, program, hclear, hsettings, hprogram, hstart⟩
    · exact ⟨_, _, .of_refuses ⟨rfl, hfirst⟩, .of_error hquiet hcommand hstart⟩
    · have hstarts : Starts host ("run" :: path :: rest) file settings program :=
        ⟨rfl, hclear, hsettings, hprogram⟩
      obtain ⟨hqueue, htame, fault, hfault⟩ := htame settings program hstarts
      have hends : ((soloRun settings program key (typedKeys input)).run steps).result.isOk =
          false := by
        rw [hfault]
        rfl
      have htracks := Session.Tracks.session
        ((resembles_fresh settings key host.key).loaded program) hqueue htame hends
      exact ⟨_, _, .of_starts hstarts hfault, .of_tracks hquiet hcommand hstart htracks hfault⟩
  · exact ⟨_, _, .of_usage hwords, .of_usage (Command.ofWords?_eq_none_iff.2 hwords)⟩

/-- Settings and a program that can be had, but for which there is no room, crash the terminal
program: nothing is written and nothing reported. -/
theorem comesTo_crash {host : Host} (hquiet : host.Quiet) {path : String} {rest : List String}
    {file : String → Contents} {settings : Settings} {program : List UInt8} (input : List UInt8)
    (hsettings : chosenSettings host (rest.head?.map file) = .ok settings)
    (hprogram : (file path).program = .ok program) (hroom : ¬ host.HasRoom settings) :
    ComesTo host ("run" :: path :: rest) file input ⟨host.crashCode, "", none⟩ 0 :=
  .of_error hquiet rfl (start_of_noRoom hsettings hprogram hroom)

/-! ### A program that draws, waits for a key and returns -/

/-- A program that draws one row, waits for a key, and returns although nothing was called. -/
def strokeKeyReturn : List UInt8 := [0xD0, 0x01, 0xF0, 0x0A, 0x00, 0xEE]

/-- A folder in which there is that program and nothing else. -/
def romFolder (path : String) : Contents :=
  if path = "rom" then .read strokeKeyReturn else .unopened .noSuchFile

/-- The instruction at a place of the program, where the memory is as the program was loaded. -/
theorem upcoming?_strokeKeyReturn {m : Machine}
    (hmemory : m.memory = Memory.initial.store programStart strokeKeyReturn) {k : Nat} (hk : k < 5)
    (hpc : m.registers.pc.toNat = programStart + k) :
    m.upcoming? = some (Instruction.ofWord
      ((Memory.image strokeKeyReturn (programStart + k)).toUInt16 * 0x100 +
        (Memory.image strokeKeyReturn (programStart + k + 1)).toUInt16)) := by
  have hstart : programStart = 0x200 := rfl
  have hsize : memorySize = 0x1000 := rfl
  rw [Machine.upcoming?_of_pc_le (by omega), hpc, hmemory, Memory.peek_loaded _ (by omega),
    Memory.peek_loaded _ (by omega)]

/-- With the frame taken, the program ends in the wait if it gets no key, and else in the return. -/
theorem advance_strokeKeyReturn {o : Outcome Recorder}
    (hmemory : o.machine.memory = Memory.initial.store programStart strokeKeyReturn)
    (hpc : o.machine.registers.pc = 0x202) (hstack : o.machine.registers.stack = {})
    (hexhausted : o.devices.exhausted = .disconnected) (hok : o.result.isOk = true)
    (seeded : Prop) :
    o.Tame seeded 2 ∧
      (o.run 2).result =
        .error (if o.devices.keys = [] then .disconnected else .stackUnderflow 0x206) := by
  have hwait : o.machine.upcoming? = some (.awaitKey 0) :=
    upcoming?_strokeKeyReturn (k := 2) hmemory (by decide) (by rw [hpc]; decide)
  have hmachine := Machine.machine_step_of_upcoming hwait o.devices
  have hresult := Machine.result_step_of_upcoming hwait o.devices
  have htame : o.machine.request? ≠ some .pollKey ∧ o.machine.Determined seeded :=
    Machine.tame_of_upcoming hwait (by simp [Machine.requestOf?]) trivial
  rw [Outcome.tame_succ_iff hok, Outcome.run_succ_of_isOk hok]
  cases hkeys : o.devices.keys with
  | nil =>
    have hanswer : Devices.awaitKey o.devices = (.error .disconnected, o.devices) := by
      simp only [Devices.awaitKey, hkeys, hexhausted]
    simp only [Machine.execute, Machine.awaitKey, hanswer] at hresult
    have hfault : o.advance.result = .error .disconnected := hresult
    rw [Outcome.run_of_error hfault]
    exact ⟨⟨htame, Outcome.tame_of_error hfault 1⟩, hfault⟩
  | cons key rest =>
    have hanswer : Devices.awaitKey o.devices = (.ok key, { o.devices with keys := rest }) := by
      simp only [Devices.awaitKey, hkeys]
    simp only [Machine.execute, Machine.awaitKey, hanswer] at hmachine hresult
    have hnext : o.advance.result.isOk = true := congrArg Except.isOk hresult
    have hafter : o.advance.machine =
        o.machine.advanced.withRegisters (o.machine.advanced.registers.set 0 key.number) := hmachine
    have hret : o.advance.machine.upcoming? = some .ret := by
      refine upcoming?_strokeKeyReturn (k := 4) (by rw [hafter]; exact hmemory) (by decide) ?_
      rw [hafter]
      show (o.machine.registers.pc + 2).toNat = _
      rw [hpc]
      decide
    have hunderflow : o.advance.machine.advanced.registers.ret =
        .error (.stackUnderflow 0x206) := by
      have hpc' : o.advance.machine.advanced.registers.pc = 0x206 := by
        rw [hafter]
        show o.machine.registers.pc + 2 + 2 = _
        rw [hpc]
        rfl
      have hstack' : o.advance.machine.advanced.registers.stack = {} := by
        rw [hafter]
        exact hstack
      rw [Registers.ret, hstack', hpc']
      rfl
    have hfault : o.advance.advance.result = .error (.stackUnderflow 0x206) := by
      show (o.advance.machine.step o.advance.devices).result = _
      rw [Machine.result_step_of_upcoming hret]
      simp only [Machine.execute, hunderflow]
      rfl
    rw [Outcome.tame_succ_iff hnext, Outcome.run_succ_of_isOk hnext, Outcome.run_of_error hfault]
    exact ⟨⟨htame, Machine.tame_of_upcoming hret (by simp [Machine.requestOf?]) trivial,
      Outcome.tame_of_error hfault 0⟩, hfault⟩

/-- By itself the program is tame, and ends in the return if it gets its key. -/
theorem soloRun_strokeKeyReturn (settings : Settings) (key : ChaCha.Key) (keys : List Key)
    (seeded : Prop) :
    (soloRun settings strokeKeyReturn key keys).Tame seeded 3 ∧
      ((soloRun settings strokeKeyReturn key keys).run 3).result =
        .error (if keys = [] then .disconnected else .stackUnderflow 0x206) := by
  obtain ⟨o, ho⟩ : ∃ o, o = soloRun settings strokeKeyReturn key keys := ⟨_, rfl⟩
  rw [← ho]
  have hregisters : o.machine.registers = {} := by rw [ho]; rfl
  have hmemory : o.machine.memory = Memory.initial.store programStart strokeKeyReturn := by
    rw [ho]
    rfl
  have hok : o.result.isOk = true := by rw [ho]; rfl
  have hdraw : o.machine.upcoming? = some (.draw 0 0 1) :=
    upcoming?_strokeKeyReturn (k := 0) hmemory (by decide) (by rw [hregisters]; decide)
  have hfits : Memory.Fits o.machine.registers.index.toNat (1 : UInt8).toNat := by
    rw [hregisters]
    exact ⟨by decide, by decide⟩
  obtain ⟨hmachine, hdevices, hresult⟩ := Machine.step_of_draw hdraw hfits o.devices
  have htaken (frame : Screen) : Devices.draw frame o.devices =
      (.ok (), { o.devices with frames := o.devices.frames.push frame }) := by
    rw [ho]
    exact if_pos trivial
  rw [htaken] at hdevices hresult
  have hafter : o.advance.machine = o.machine.advanced.drawn 0 0 1 := hmachine
  have hkept : o.advance.devices.keys = keys ∧ o.advance.devices.exhausted = .disconnected := by
    rw [show o.advance.devices = _ from hdevices, ho]
    exact ⟨rfl, rfl⟩
  obtain ⟨htame, hrun⟩ := advance_strokeKeyReturn (o := o.advance) (by rw [hafter]; exact hmemory)
    (by
      rw [hafter]
      show o.machine.registers.pc + 2 = _
      rw [hregisters]
      rfl)
    (by
      rw [hafter]
      show o.machine.registers.stack = _
      rw [hregisters])
    hkept.2 (congrArg Except.isOk hresult) seeded
  rw [Outcome.tame_succ_iff hok, Outcome.run_succ_of_isOk hok, hrun, hkept.1]
  refine ⟨⟨Machine.tame_of_upcoming hdraw ?_ trivial, htame⟩, rfl⟩
  rw [Machine.requestOf?]
  split <;> simp

section Folder

variable {host : Host} {words : List String} {file : String → Contents}

/-- A program that is started from the folder with the default settings. -/
theorem starts_strokeKeyReturn_iff {settings : Settings} {program : List UInt8} :
    Starts host ["run", "rom"] romFolder settings program ↔
      settings = {} ∧ program = strokeKeyReturn := by
  constructor
  · rintro ⟨hwords, -, hsettings, hprogram⟩
    cases hwords
    cases hsettings
    cases hprogram
    exact ⟨rfl, rfl⟩
  · rintro ⟨rfl, rfl⟩
    exact ⟨rfl, rfl, rfl, rfl⟩

/-- The program is tame with no more keys than its queue holds. -/
theorem tame_of_starts {keys : List Key} (key : ChaCha.Key)
    (hstarts : ∀ settings program, Starts host words file settings program →
      program = strokeKeyReturn ∧ keys.length ≤ settings.keyBuffer) :
    Tame host words file keys key 3 := by
  intro settings program h
  obtain ⟨rfl, hqueue⟩ := hstarts settings program h
  obtain ⟨htame, hrun⟩ := soloRun_strokeKeyReturn settings key keys _
  exact ⟨hqueue, htame, _, hrun⟩

theorem tame_strokeKeyReturn {keys : List Key} (hqueue : keys.length ≤ 16) (key : ChaCha.Key) :
    Tame host ["run", "rom"] romFolder keys key 3 := by
  refine tame_of_starts key fun settings program hstarts => ?_
  obtain ⟨rfl, rfl⟩ := starts_strokeKeyReturn_iff.1 hstarts
  exact ⟨rfl, hqueue⟩

theorem findsRoom_strokeKeyReturn (key : ChaCha.Key) :
    FindsRoom (.plain key) ["run", "rom"] romFolder := by
  intro path rest settings program hwords hsettings _
  cases hwords
  cases hsettings
  exact ⟨Nat.le_of_ble_eq_true rfl, Nat.le_of_ble_eq_true rfl⟩

end Folder

/-! ## All words, files and input -/

/-- For all words, files and input, on every host whose logger leaves nothing but errors and which
has room for the key queue and the screen: if a program that is run is tame, with the keys that are
hexadecimal digits on the lines before the first one that is not UTF-8, then the terminal program
leaves one transcript behind, whoever moves when and whatever key the host draws.  It tells of the
program by itself. -/
theorem terminal_leaves_transcript {host : Host} (hquiet : host.Quiet) {words : List String}
    {file : String → Contents} {input : List UInt8} {key : ChaCha.Key} {steps : Nat}
    (hroom : FindsRoom host words file) (htame : Tame host words file (digitKeys input) key steps) :
    ∃ t bound, t.Tells host words file (digitKeys input) key steps ∧
      ComesTo host words file input t bound := by
  rw [← typedKeys_eq_digitKeys] at htame ⊢
  exact exists_comesTo hquiet hroom htame

/-- With the key 5 the program ends in its return. -/
theorem terminal_leaves_transcript_return :
    ∃ t, Ends (.plain .zero) ["run", "rom"] romFolder [0x35, 0x0A] t ∧ t.code = 1 ∧
      t.failure = some (.stopped (.stackUnderflow 0x206)) := by
  have hkeys : digitKeys [0x35, 0x0A] = [⟨5, by decide⟩] := by decide +kernel
  have htame : Tame (.plain .zero) ["run", "rom"] romFolder (digitKeys [0x35, 0x0A]) .zero 3 :=
    tame_strokeKeyReturn (by rw [hkeys]; decide) .zero
  obtain ⟨t, bound, htells, hcomes⟩ :=
    terminal_leaves_transcript (Host.quiet_plain .zero) (findsRoom_strokeKeyReturn .zero) htame
  obtain ⟨-, fault, hrun, hfailure⟩ := htells.ran _ _ (starts_strokeKeyReturn_iff.2 ⟨rfl, rfl⟩)
  rw [(soloRun_strokeKeyReturn _ .zero _ True).2, hkeys] at hrun
  cases hrun
  exact ⟨t, (hcomes.ends_iff t).2 rfl, htells.failure_iff.2 ⟨_, _, rfl⟩, hfailure⟩

/-! ### What the conditions are for -/

/-- The program that is run is tame, with all hexadecimal digits of the input as its keys, and still
the terminal program can leave a transcript behind that does not tell of it. -/
def Departs (host : Host) (words : List String) (file : String → Contents) (input : List UInt8) :
    Prop :=
  Tame host words file (input.filterMap Key.ofByte?) .zero 3 ∧
    ∃ t, Ends host words file input t ∧
      ¬ t.Tells host words file (input.filterMap Key.ofByte?) .zero 3

/-- Of input whose first line is not UTF-8 no digit is used, although there is one on the second
line. -/
theorem departs_unreadable :
    Departs (.plain .zero) ["run", "rom"] romFolder [0xFF, 0x0A, 0x35, 0x0A] := by
  have hall : [0xFF, 0x0A, 0x35, 0x0A].filterMap Key.ofByte? = [⟨5, by decide⟩] := by decide +kernel
  have hnone : typedKeys [0xFF, 0x0A, 0x35, 0x0A] = [] := by decide +kernel
  rw [Departs, hall]
  refine ⟨tame_strokeKeyReturn (by decide) .zero, ?_⟩
  have htame : Tame (.plain .zero) ["run", "rom"] romFolder
      (typedKeys [0xFF, 0x0A, 0x35, 0x0A]) .zero 3 :=
    tame_strokeKeyReturn (by rw [hnone]; decide) .zero
  obtain ⟨t, bound, htells, hcomes⟩ :=
    exists_comesTo (Host.quiet_plain .zero) (findsRoom_strokeKeyReturn .zero) htame
  refine ⟨t, (hcomes.ends_iff t).2 rfl, fun hall' => ?_⟩
  have hstarts : Starts (.plain .zero) ["run", "rom"] romFolder {} strokeKeyReturn :=
    starts_strokeKeyReturn_iff.2 ⟨rfl, rfl⟩
  obtain ⟨-, fault, hrun, hfailure⟩ := htells.ran _ _ hstarts
  obtain ⟨-, fault', hrun', hfailure'⟩ := hall'.ran _ _ hstarts
  rw [(soloRun_strokeKeyReturn _ .zero _ True).2, hnone] at hrun
  rw [(soloRun_strokeKeyReturn _ .zero _ True).2] at hrun'
  cases hrun
  cases hrun'
  cases hfailure.symm.trans hfailure'

/-- A folder in which there are the program and settings that ask for the longest key queue that can
be asked for. -/
def queueFolder (path : String) : Contents :=
  if path = "config" then .read "key_buffer: 18446744073709551615\n".toUTF8.data.toList
  else romFolder path

/-- A key queue for which there is no room crashes the terminal program. -/
theorem departs_queue : Departs (.plain .zero) ["run", "rom", "config"] queueFolder [0x35] := by
  have hkeys : [0x35].filterMap Key.ofByte? = [⟨5, by decide⟩] := by decide +kernel
  have hchosen : chosenSettings (.plain .zero) (some (queueFolder "config")) =
      .ok { keyBuffer := 18446744073709551615 } := rfl
  rw [Departs, hkeys]
  constructor
  · refine tame_of_starts .zero ?_
    rintro settings program ⟨hwords, -, hsettings, hprogram⟩
    cases hwords
    cases hchosen.symm.trans hsettings
    cases hprogram
    exact ⟨rfl, Nat.le_of_ble_eq_true rfl⟩
  · have hprogram : (queueFolder "rom").program = .ok strokeKeyReturn := rfl
    have hcrash : ComesTo (.plain .zero) ["run", "rom", "config"] queueFolder [0x35]
        ⟨101, "", none⟩ 0 :=
      comesTo_crash (Host.quiet_plain .zero) [0x35] hchosen hprogram (by decide)
    refine ⟨_, (hcrash.ends_iff _).2 rfl, fun htells => ?_⟩
    have hcode : (101 : Nat) = 1 := htells.failure_iff.2 ⟨_, _, rfl⟩
    cases hcode

/-- A host whose logger leaves all lines of the log. -/
def verboseHost : Host := { Host.plain .zero with logged := fun line => s!"{line.render}\n" }

/-- A logger that leaves more than errors does so before a failure is reported. -/
theorem departs_verbose : Departs verboseHost ["run", "none"] romFolder [] := by
  have hrefuses : Refuses verboseHost ["run", "none"] romFolder .noSuchFile := ⟨rfl, rfl⟩
  have hwords : Command.ofWords? ["run", "none"] = some ⟨"none", none⟩ := rfl
  have hstart : start verboseHost none (romFolder "none") = .error (.failure .noSuchFile) := rfl
  refine ⟨fun settings program hstarts => absurd hstarts (hrefuses.not_starts settings program), _,
    .kept hwords hstart, fun htells => ?_⟩
  have hempty :
      verboseHost.loggedAll (Command.startLines ⟨"none", none⟩ verboseHost romFolder) = "" :=
    (htells.refused _ hrefuses).1
  have hlogged : verboseHost.loggedAll (Command.startLines ⟨"none", none⟩ verboseHost romFolder) =
      "INFO running none\n" := by decide +kernel
  rw [hlogged] at hempty
  exact absurd hempty (by decide)

/-- The terminal program does not do what a program does by itself with all digits of the input as
its keys if a line of the input is not UTF-8, nor if the key queue is too long for the host, nor if
the logger leaves more than errors. -/
theorem terminal_departures :
    Departs (.plain .zero) ["run", "rom"] romFolder [0xFF, 0x0A, 0x35, 0x0A] ∧
      Departs (.plain .zero) ["run", "rom", "config"] queueFolder [0x35] ∧
      Departs verboseHost ["run", "none"] romFolder [] :=
  ⟨departs_unreadable, departs_queue, departs_verbose⟩

end ChipEight.Console
