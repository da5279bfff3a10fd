import Overlay.Node

/-! The loop of `run` over the tokens of its input. The commands are those of `Node`; a
frame of the main thread comes between two passes. -/

namespace Overlay

open ByteMemory Execution

inductive RunCommand
  | ping
  | stats
  | advertise
  | dtable
  | ltable
  | dsa (ipDst : Str)
  | lsa (ipDst : Str)

namespace RunCommand

def name : RunCommand → Str
  | .ping => ascii "ping"
  | .stats => ascii "stats"
  | .advertise => ascii "advertise"
  | .dtable => ascii "dtable"
  | .ltable => ascii "ltable"
  | .dsa _ => ascii "dsa"
  | .lsa _ => ascii "lsa"

def names : List Str :=
  [ascii "ping", ascii "stats", ascii "advertise", ascii "dtable", ascii "ltable", ascii "dsa", ascii "lsa"]

/-- The event of the node; the other three commands only print. -/
def event (clock : Nat → Int) (now : Int) : RunCommand → Option Event
  | .ping => some (.ping clock)
  | .advertise => some .advertise
  | .dsa ipDst => some (.dsa ipDst now)
  | .lsa ipDst => some (.lsa ipDst now)
  | .stats => none
  | .dtable => none
  | .ltable => none

def acts : RunCommand → Bool
  | .ping => true
  | .advertise => true
  | .dsa _ => true
  | .lsa _ => true
  | .stats => false
  | .dtable => false
  | .ltable => false

end RunCommand

/-- `cin >> s`: at the end of the input the extraction fails and leaves the string alone. -/
def extract (s : Str) : List Str → Str × List Str
  | [] => (s, [])
  | token :: input => (token, input)

/-- What `run` keeps from one pass of its loop to the next. -/
structure RunLoop where
  command : Str
  input : List Str

/-- One pass: what is left, and the command it executes. -/
def RunLoop.pass (s : RunLoop) : RunLoop × Option RunCommand :=
  let read := extract s.command s.input
  if read.1 = ascii "ping" then (⟨read.1, read.2⟩, some .ping)
  else if read.1 = ascii "stats" then (⟨read.1, read.2⟩, some .stats)
  else if read.1 = ascii "advertise" then (⟨read.1, read.2⟩, some .advertise)
  else if read.1 = ascii "dtable" then (⟨read.1, read.2⟩, some .dtable)
  else if read.1 = ascii "ltable" then (⟨read.1, read.2⟩, some .ltable)
  else if read.1 = ascii "dsa" then
    let ipDst := extract [] read.2
    (⟨read.1, ipDst.2⟩, some (.dsa ipDst.1))
  else if read.1 = ascii "lsa" then
    let ipDst := extract [] read.2
    (⟨read.1, ipDst.2⟩, some (.lsa ipDst.1))
  else (⟨read.1, read.2⟩, none)

structure RunningNode where
  machine : Machine
  loop : RunLoop

/-- `frame` is the main thread, `pass` is one pass of `run`. -/
inductive NodeEvent
  | pass (clock : Nat → Int) (now : Int)
  | frame (data : Bytes) (now : Int)

namespace RunningNode

abbrev Moment := Taken RunningNode NodeEvent (List Sent)

def step (t : RunningNode) : NodeEvent → Option (RunningNode × List Sent)
  | .pass clock now =>
    let r := t.loop.pass
    match r.2.bind (·.event clock now) with
    | some e => (t.machine.step e).map fun m => (⟨m.1, r.1⟩, m.2)
    | none => some (⟨t.machine, r.1⟩, [])
  | .frame data now => (t.machine.step (.frame data now)).map fun m => (⟨m.1, t.loop⟩, m.2)

/-- The value of `command` that a pass compares. -/
def commandOf (x : Moment) : Option Str :=
  match x.event with
  | .pass _ _ => some x.before.loop.pass.1.command
  | .frame _ _ => none

def executed (x : Moment) : Option RunCommand :=
  match x.event with
  | .pass _ _ => x.before.loop.pass.2
  | .frame _ _ => none

def passes (h : List Moment) : Nat := h.countP fun x => (commandOf x).isSome

def executions (name : Str) (h : List Moment) : Nat := h.countP fun x => (executed x).any (·.name = name)

end RunningNode

/-- `dsa` and `lsa` are followed by an address. -/
def takesAddress (command : Str) : Bool := command = ascii "dsa" || command = ascii "lsa"

/-- The tokens that stand where a command is read. -/
def commandTokens : List Str → List Str
  | [] => []
  | [command] => [command]
  | command :: token :: input =>
    command :: if takesAddress command then commandTokens input else commandTokens (token :: input)

/-- The commands executed are the command tokens, and none of those that act on the node is
executed when the input was exhausted before. -/
structure RunsOnInput (tokens : List Str) (h : List RunningNode.Moment) : Prop where
  counted : (commandTokens tokens).length ≤ RunningNode.passes h → ∀ name ∈ RunCommand.names,
    RunningNode.executions name h = (commandTokens tokens).count name
  quiet : ∀ x ∈ h, x.before.loop.input = [] → (RunningNode.executed x).any (·.acts) = false

variable {command : Str} {input tokens : List Str}

theorem commandTokens_cons : commandTokens (command :: input) =
    command :: commandTokens (if takesAddress command then input.tail else input) := by
  cases input with
  | nil => simp [commandTokens]
  | cons token input =>
    rw [commandTokens]
    split_ifs
    · rfl
    · rfl

theorem extract_snd (s : Str) (input : List Str) : (extract s input).2 = input.tail := by
  cases input with
  | nil => rfl
  | cons token input => rfl

namespace RunLoop

/-- Everything a pass does, by the command it finds. -/
theorem pass_cases (s : RunLoop) {command : Str} (hc : (extract s.command s.input).1 = command) :
    s.pass.1 = ⟨command, if takesAddress command then s.input.tail.tail else s.input.tail⟩ ∧
      s.pass.2.map (·.name) = if command ∈ RunCommand.names then some command else none := by
  by_cases hm : command ∈ RunCommand.names
  · rw [if_pos hm]
    unfold pass
    simp only [hc, extract_snd]
    simp only [RunCommand.names, List.mem_cons, List.not_mem_nil, or_false] at hm
    rcases hm with rfl | rfl | rfl | rfl | rfl | rfl | rfl
    · exact ⟨rfl, rfl⟩
    · exact ⟨rfl, rfl⟩
    · exact ⟨rfl, rfl⟩
    · exact ⟨rfl, rfl⟩
    · exact ⟨rfl, rfl⟩
    · exact ⟨rfl, rfl⟩
    · exact ⟨rfl, rfl⟩
  · rw [if_neg hm]
    simp only [RunCommand.names, List.mem_cons, List.not_mem_nil, or_false, not_or] at hm
    obtain ⟨h₁, h₂, h₃, h₄, h₅, h₆, h₇⟩ := hm
    simp [pass, hc, extract_snd, takesAddress, h₁, h₂, h₃, h₄, h₅, h₆, h₇]

theorem pass_exhausted {s : RunLoop} (hi : s.input = []) : s.pass.1 = ⟨s.command, []⟩ ∧
    s.pass.2.map (·.name) = if s.command ∈ RunCommand.names then some s.command else none := by
  have hc : (extract s.command s.input).1 = s.command := by
    rw [hi]
    rfl
  obtain ⟨hloop, hname⟩ := s.pass_cases hc
  rw [hi] at hloop
  exact ⟨by simpa using hloop, hname⟩

theorem pass_token {s : RunLoop} {token : Str} {input : List Str} (hi : s.input = token :: input) :
    s.pass.1 = ⟨token, if takesAddress token then input.tail else input⟩ := by
  have hc : (extract s.command s.input).1 = token := by
    rw [hi]
    rfl
  rw [(s.pass_cases hc).1, hi]
  rfl

end RunLoop

namespace RunningNode

def commandsRead (h : List Moment) : List Str := h.filterMap commandOf

/-- Where the loop stands: it has read the command tokens `done` and found the last of them
`again` times more. -/
structure ReadUpTo (tokens : List Str) (h : List Moment) (loop : RunLoop) (done : List Str) (again : Nat) :
    Prop where
  tokens_eq : commandTokens tokens = done ++ commandTokens loop.input
  command_eq : loop.command = done.getLastD []
  read_eq : commandsRead h = done ++ List.replicate again loop.command
  exhausted : again ≠ 0 → loop.input = []

variable {t u : RunningNode} {h : List Moment} {e : NodeEvent} {out : List Sent} {x : Moment}
  {done : List Str} {again : Nat} {clock : Nat → Int} {now : Int} {data : Bytes} {m m' : Machine} {name : Str}

theorem step_pass (he : t.step (.pass clock now) = some (u, out)) : u.loop = t.loop.pass.1 ∧
    (u.machine = t.machine ∧ out = [] ∨ ∃ e, t.machine.step e = some (u.machine, out)) := by
  unfold step at he
  dsimp only at he
  cases hc : t.loop.pass.2.bind (·.event clock now) with
  | none =>
    rw [hc] at he
    obtain ⟨rfl, rfl⟩ := Prod.mk.inj (Option.some.inj he)
    exact ⟨rfl, Or.inl ⟨rfl, rfl⟩⟩
  | some e =>
    rw [hc] at he
    obtain ⟨r, hr, heq⟩ := Option.map_eq_some_iff.mp he
    obtain ⟨rfl, rfl⟩ := Prod.mk.inj heq
    exact ⟨rfl, Or.inr ⟨e, hr⟩⟩

theorem step_frame (he : t.step (.frame data now) = some (u, out)) :
    u.loop = t.loop ∧ t.machine.step (.frame data now) = some (u.machine, out) := by
  obtain ⟨r, hr, heq⟩ := Option.map_eq_some_iff.mp he
  obtain ⟨rfl, rfl⟩ := Prod.mk.inj heq
  exact ⟨rfl, hr⟩

/-- The loop gives the node no step that `Node` does not have. -/
theorem run_machine (hr : Run step t h u) : ∃ k, Run Machine.step t.machine k u.machine ∧
    k.flatMap (·.output) = h.flatMap (·.output) := by
  induction hr with
  | start => exact ⟨[], .start, rfl⟩
  | @snoc h v w e o hr he ih =>
    obtain ⟨k, hk, ho⟩ := ih
    have hstep : w.machine = v.machine ∧ o = [] ∨ ∃ e, v.machine.step e = some (w.machine, o) := by
      cases e with
      | pass clock now => exact (step_pass he).2
      | frame data now => exact Or.inr ⟨_, (step_frame he).2⟩
    rcases hstep with ⟨hw, rfl⟩ | ⟨e', he'⟩
    · refine ⟨k, hw ▸ hk, ?_⟩
      simp [ho]
    · refine ⟨_, hk.snoc he', ?_⟩
      simp [ho]

theorem executions_eq (hn : name ∈ RunCommand.names) : executions name h = (commandsRead h).count name := by
  rw [List.count, commandsRead, List.countP_filterMap, executions]
  congr 1
  funext x
  obtain ⟨t, e, out⟩ := x
  cases e with
  | frame data now => rfl
  | pass clock now =>
    show t.loop.pass.2.any (fun c => c.name = name) = (t.loop.pass.1.command == name)
    obtain ⟨hloop, hname⟩ := t.loop.pass_cases rfl
    rw [hloop]
    by_cases hm : (extract t.loop.command t.loop.input).1 ∈ RunCommand.names
    · rw [if_pos hm] at hname
      obtain ⟨c, hc, hcn⟩ := Option.map_eq_some_iff.mp hname
      rw [hc, Option.any_some, hcn, Bool.beq_eq_decide_eq]
    · rw [if_neg hm, Option.map_eq_none_iff] at hname
      have hne : (extract t.loop.command t.loop.input).1 ≠ name := fun h => hm (h ▸ hn)
      rw [hname, Option.any_none, beq_false_of_ne hne]

theorem passes_eq : passes h = (commandsRead h).length := List.length_filterMap_eq_countP.symm

section Read

variable {s : RunLoop}

theorem ReadUpTo.passes_eq (hr : ReadUpTo tokens h s done again) : passes h = done.length + again := by
  rw [RunningNode.passes_eq, hr.read_eq, List.length_append, List.length_replicate]

theorem ReadUpTo.done_eq (hr : ReadUpTo tokens h s done again) (hi : s.input = []) :
    commandTokens tokens = done := by
  rw [hr.tokens_eq, hi]
  exact List.append_nil done

/-- As many passes as there are command tokens read them all. -/
theorem ReadUpTo.done_eq_of_passes (hr : ReadUpTo tokens h s done again)
    (hp : (commandTokens tokens).length ≤ passes h) : commandTokens tokens = done := by
  by_cases hz : again = 0
  · have hlen := congrArg List.length hr.tokens_eq
    rw [hr.passes_eq] at hp
    rw [List.length_append] at hlen
    have hrest : commandTokens s.input = [] := List.length_eq_zero_iff.mp (by omega)
    rw [hr.tokens_eq, hrest, List.append_nil]
  · exact hr.done_eq (hr.exhausted hz)

theorem ReadUpTo.executions_eq (hr : ReadUpTo tokens h s done again) (hn : name ∈ RunCommand.names) :
    executions name h = done.count name + if s.command = name then again else 0 := by
  rw [RunningNode.executions_eq hn, hr.read_eq, List.count_append, List.count_replicate]
  simp only [beq_iff_eq]

theorem ReadUpTo.pass (hr : ReadUpTo tokens h s done again)
    (hx : commandOf x = some s.pass.1.command) :
    ∃ done' again', ReadUpTo tokens (h ++ [x]) s.pass.1 done' again' := by
  have hread : commandsRead (h ++ [x]) = commandsRead h ++ [s.pass.1.command] := by
    simp [commandsRead, hx]
  cases hi : s.input with
  | nil =>
    rw [(RunLoop.pass_exhausted hi).1] at hread ⊢
    refine ⟨done, again + 1, ?_, hr.command_eq, ?_, fun _ => rfl⟩
    · rw [hr.tokens_eq, hi]
    · rw [hread, hr.read_eq, List.replicate_succ', List.append_assoc]
  | cons token input =>
    have hzero : again = 0 := by
      by_contra hne
      rw [hr.exhausted hne] at hi
      cases hi
    rw [RunLoop.pass_token hi] at hread ⊢
    refine ⟨done ++ [token], 0, ?_, ?_, ?_, fun h => absurd rfl h⟩
    · rw [hr.tokens_eq, hi, commandTokens_cons, List.append_assoc, List.singleton_append]
    · simp
    · rw [hread, hr.read_eq, hzero]
      simp

end Read

theorem run_read (hr : Run step ⟨m, ⟨[], tokens⟩⟩ h t) : ∃ done again, ReadUpTo tokens h t.loop done again := by
  induction hr with
  | start => exact ⟨[], 0, rfl, rfl, rfl, fun h => absurd rfl h⟩
  | @snoc h v w e o hr he ih =>
    obtain ⟨done, again, ih⟩ := ih
    cases e with
    | pass clock now =>
      rw [(step_pass he).1]
      exact ih.pass rfl
    | frame data now =>
      rw [(step_frame he).1]
      have hread : commandsRead (h ++ [⟨v, .frame data now, o⟩]) = commandsRead h := by
        simp [commandsRead, commandOf]
      exact ⟨done, again, ih.tokens_eq, ih.command_eq, hread.trans ih.read_eq, ih.exhausted⟩

/-- The loop follows its input when the last command it reads is no command of `run`. -/
theorem runs_on_input (hl : (commandTokens tokens).getLastD [] ∉ RunCommand.names)
    (hr : Run step ⟨m, ⟨[], tokens⟩⟩ h t) : RunsOnInput tokens h := by
  refine ⟨fun hp name hn => ?_, fun x hx hi => ?_⟩
  · obtain ⟨done, again, ht⟩ := run_read hr
    have hdone := ht.done_eq_of_passes hp
    have hne : t.loop.command ≠ name := by
      rintro rfl
      rw [ht.command_eq, ← hdone] at hn
      exact hl hn
    rw [ht.executions_eq hn, if_neg hne, hdone, Nat.add_zero]
  · obtain ⟨a, b, rfl⟩ := List.append_of_mem hx
    obtain ⟨_, hr, _⟩ := hr.split_at
    obtain ⟨done, again, ht⟩ := run_read hr
    have hdone := ht.done_eq hi
    have hlast : x.before.loop.command ∉ RunCommand.names := by rwa [ht.command_eq, ← hdone]
    have hnone : x.before.loop.pass.2 = none := by
      have hname := (RunLoop.pass_exhausted hi).2
      rwa [if_neg hlast, Option.map_eq_none_iff] at hname
    obtain ⟨v, e, o⟩ := x
    cases e with
    | frame data now => rfl
    | pass clock now =>
      show v.loop.pass.2.any _ = false
      rw [hnone]
      rfl

/-! A node without servers takes every pass. -/

def serverlessInfo : Str := ascii "10.0.0.1 02:00:00:00:00:03 0"

def Serverless (m : Machine) : Prop := m.table.numberOfServers = 0 ∧ m.table.numberOfAllServers = 0

theorem isServerValid_of_serverless (hm : Serverless m) (serverIp : Str) :
    m.table.isServerValid serverIp = false := by
  rw [ServerTable.isServerValid, ServerTable.known, hm.2]
  rfl

theorem step_of_serverless (hm : Serverless m) {c : RunCommand} {e : Event} (he : c.event clock now = some e) :
    ∃ m' out, m.step e = some (m', out) ∧ Serverless m' := by
  cases c with
  | ping =>
    obtain rfl := Option.some.inj he
    exact ⟨_, _, rfl, hm⟩
  | advertise =>
    obtain rfl := Option.some.inj he
    have hstep : ∃ out, m.advertise =
        some ({ m with table := m.table.fillForwardingTable.resetLearningTable }, out) := by
      rw [Machine.advertise, ServerTable.advertiseData_eq hm.1.ge]
      exact ⟨_, rfl⟩
    obtain ⟨out, hout⟩ := hstep
    exact ⟨_, out, hout, hm⟩
  | dsa ipDst =>
    obtain rfl := Option.some.inj he
    refine ⟨m, [], ?_, hm⟩
    rw [Machine.step, isServerValid_of_serverless hm]
    rfl
  | lsa ipDst =>
    obtain rfl := Option.some.inj he
    refine ⟨m, [], ?_, hm⟩
    rw [Machine.step, isServerValid_of_serverless hm]
    rfl
  | stats => cases he
  | dtable => cases he
  | ltable => cases he

theorem exists_passes (hm : Serverless m) (tokens : List Str) (n : Nat) :
    ∃ h t, Run step ⟨m, ⟨[], tokens⟩⟩ h t ∧ passes h = n ∧ Serverless t.machine := by
  induction n with
  | zero => exact ⟨[], _, .start, rfl, hm⟩
  | succ n ih =>
    obtain ⟨h, t, hr, hn, ht⟩ := ih
    have hstep : ∃ u out, t.step (.pass (fun _ => 0) 0) = some (u, out) ∧ Serverless u.machine := by
      unfold step
      dsimp only
      cases hc : t.loop.pass.2.bind (·.event (fun _ => 0) 0) with
      | none => exact ⟨_, _, rfl, ht⟩
      | some e =>
        obtain ⟨c, _, he⟩ := Option.bind_eq_some_iff.mp hc
        obtain ⟨m', out, hm', hs⟩ := step_of_serverless ht he
        refine ⟨⟨m', t.loop.pass.1⟩, out, ?_, hs⟩
        show (t.machine.step e).map _ = _
        rw [hm', Option.map_some]
    obtain ⟨u, out, he, hu⟩ := hstep
    refine ⟨_, u, hr.snoc he, ?_, hu⟩
    rw [passes, List.countP_append, ← passes, hn]
    rfl

theorem exists_serverless : ∃ m₀, Machine.initializeMachine sampleIface serverlessInfo = some m₀ ∧
    Serverless m₀ := by
  have hm : (Machine.initializeMachine sampleIface serverlessInfo).any (fun m =>
      m.table.numberOfServers = 0 ∧ m.table.numberOfAllServers = 0) = true := by decide +kernel
  obtain ⟨m₀, hi, hs⟩ := (Option.any_eq_true _ _).mp hm
  have hzero := of_decide_eq_true hs
  exact ⟨m₀, hi, hzero⟩

/-- The loop finds its last command again in every pass after the end of the input. -/
theorem runs_on_input_iff (tokens : List Str) :
    (∀ iface info m₀ h t, Machine.initializeMachine iface info = some m₀ →
      Run step ⟨m₀, ⟨[], tokens⟩⟩ h t → RunsOnInput tokens h) ↔
    (commandTokens tokens).getLastD [] ∉ RunCommand.names := by
  constructor
  · intro hall hl
    obtain ⟨m₀, hi, hm⟩ := exists_serverless
    obtain ⟨h, t, hr, hn, _⟩ := exists_passes hm tokens ((commandTokens tokens).length + 1)
    have hcount := (hall _ _ _ _ _ hi hr).counted (by omega) _ hl
    obtain ⟨done, again, ht⟩ := run_read hr
    have hdone := ht.done_eq_of_passes (by omega)
    have hlen := ht.passes_eq
    rw [← hdone] at hlen
    have hlast : t.loop.command = (commandTokens tokens).getLastD [] := by rw [ht.command_eq, hdone]
    rw [ht.executions_eq hl, if_pos hlast, ← hdone] at hcount
    omega
  · intro hl _ _ _ _ _ _ hr
    exact runs_on_input hl hr

theorem reaches (iface : Fin 2 → Interface) (info : Str) (tokens : List Str) (events : List NodeEvent)
    (P : RunningNode → List Moment → Prop) [∀ t h, Decidable (P t h)]
    (hp : ((Machine.initializeMachine iface info).bind fun m =>
      (exec step ⟨m, ⟨[], tokens⟩⟩ events).map fun r => decide (P r.1 r.2)) = some true) :
    ∃ m₀ h t, Machine.initializeMachine iface info = some m₀ ∧ Run step ⟨m₀, ⟨[], tokens⟩⟩ h t ∧
      h.map (·.event) = events ∧ P t h :=
  exists_run (fun m => ⟨m, ⟨[], tokens⟩⟩) events P hp

/-- A single `ping` at the end of the input is executed over and over. -/
theorem ping_never_ends : ¬ ∀ iface info m₀ h t, Machine.initializeMachine iface info = some m₀ →
    Run step ⟨m₀, ⟨[], [ascii "ping"]⟩⟩ h t → RunsOnInput [ascii "ping"] h := by
  intro hall
  obtain ⟨m₀, h, t, hi, hr, _, hpasses, htwice⟩ := reaches sampleIface sampleInfo [ascii "ping"]
    [.pass (fun _ => 0) 0, .pass (fun _ => 0) 0]
    (fun _ h => passes h = 2 ∧ executions (ascii "ping") h = 2) (by decide +kernel)
  have hcount := (hall _ _ _ _ _ hi hr).counted (hpasses ▸ by decide) (ascii "ping") (by decide)
  rw [htwice] at hcount
  exact absurd hcount (by decide)

end RunningNode

end Overlay
