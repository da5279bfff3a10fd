import Overlay.Arguments
import Overlay.Requests

/-! The command line of the client: which ones it takes, and what it makes of them. An option
may come in any place before `--args`, and what follows that one is not looked at. -/

namespace Overlay

open ByteMemory

/-- `server`, as it stands in memory. -/
structure SocketAddress where
  sinPort : UInt16
  sinAddr : UInt32

structure Configuration where
  client : Client
  ip : UInt32
  port : UInt16

def Configuration.server (c : Configuration) : SocketAddress := ⟨swap16 c.port, swap32 c.ip⟩

namespace CommandLine

/-- The options with an argument. -/
inductive Named
  | ip
  | port
  | map
  | user
  | pass
  | id
  | node
  deriving DecidableEq

inductive Flag
  | named (n : Named)
  | new
  | free
  | args
  deriving DecidableEq

/-- The entries of `mark`; `--id`, `--new` and `--free` share one. -/
inductive Mark
  | named (n : Named)
  | args
  deriving DecidableEq

def Flag.mark : Flag → Mark
  | .named n => .named n
  | .new => .named .id
  | .free => .named .id
  | .args => .args

def Flag.text : Flag → Str
  | .named .ip => ascii "--ip"
  | .named .port => ascii "--port"
  | .named .map => ascii "--map"
  | .named .user => ascii "--user"
  | .named .pass => ascii "--pass"
  | .named .id => ascii "--id"
  | .new => ascii "--new"
  | .free => ascii "--free"
  | .named .node => ascii "--node"
  | .args => ascii "--args"

/-- In the order of the comparisons. -/
def flags : List Flag :=
  [.named .ip, .named .port, .named .map, .named .user, .named .pass, .named .id, .new, .free, .named .node, .args]

def flagOf (arg : CString) : Option Flag := flags.find? fun flag => flag.text = arg.text

def mandatory : List Named := [.ip, .port, .map, .user, .pass, .id]

/-- `usage` ends the program; an option at the very end has a null pointer for its argument. -/
inductive Parsed
  | usage
  | null
  | parsed (c : Configuration) (server : SocketAddress)

def parseIPArgument (c : Configuration) (arg : CString) : Option Configuration :=
  let r := parseIP arg.text c.ip
  if r.accepted then some { c with ip := r.res } else none

def parsePortArgument (c : Configuration) (arg : CString) : Option Configuration :=
  let r := parsePort arg c.port
  if r.accepted then some { c with port := r.res } else none

def parseMapNameArgument (c : Configuration) (arg : CString) : Configuration :=
  { c with client := { c.client with mapName := arg } }

def parseUserNameArgument (c : Configuration) (arg : CString) : Configuration :=
  { c with client := { c.client with userName := arg } }

def parseIDArgument (c : Configuration) (arg : CString) : Configuration :=
  { c with client := { c.client with creatorId := arg } }

def parsePasswordArgument (c : Configuration) (arg : CString) : Configuration :=
  { c with client := { c.client with password := arg } }

def parseNodeNameArgument (c : Configuration) (arg : CString) : Configuration :=
  { c with client := { c.client with nodeName := arg } }

def setNeedNewMap (c : Configuration) (needNewMap : Int32) : Configuration :=
  { c with client := { c.client with needNewMap } }

def parseNamed (c : Configuration) (arg : CString) : Named → Option Configuration
  | .ip => parseIPArgument c arg
  | .port => parsePortArgument c arg
  | .map => some (parseMapNameArgument c arg)
  | .user => some (parseUserNameArgument c arg)
  | .pass => some (parsePasswordArgument c arg)
  | .id => some (setNeedNewMap (parseIDArgument c arg) 0)
  | .node => some (parseNodeNameArgument c arg)

/-- What comes after the loop. -/
def finish (mark : Mark → Bool) (c : Configuration) : Parsed :=
  if ∀ n ∈ mandatory, mark (.named n) = true then .parsed c c.server else .usage

/-- The loop, on the arguments that are left. -/
def parseFlags (mark : Mark → Bool) (c : Configuration) : List CString → Parsed
  | [] => finish mark c
  | arg :: argv =>
    match flagOf arg with
    | none => .usage
    | some flag =>
      if mark flag.mark then .usage
      else
        let mark := Function.update mark flag.mark true
        match flag with
        | .args => finish mark c
        | .new => parseFlags mark (setNeedNewMap c 1) argv
        | .free => parseFlags mark (setNeedNewMap c (-1)) argv
        | .named n =>
          match argv with
          | [] => .null
          | value :: argv =>
            match parseNamed c value n with
            | none => .usage
            | some c => parseFlags mark c argv

/-- `argv` without the name of the program. -/
def parseArguments (c : Configuration) (argv : List CString) : Parsed := parseFlags (fun _ => false) c argv

/-! What a command line sets. -/

inductive Setting
  | named (n : Named) (value : CString)
  | new
  | free

theorem Flag.no_zero (flag : Flag) : 0 ∉ flag.text := by
  cases flag with
  | named n => cases n <;> decide +kernel
  | new => decide +kernel
  | free => decide +kernel
  | args => decide +kernel

def Flag.word (flag : Flag) : CString := ⟨flag.text, flag.no_zero⟩

namespace Setting

def flag : Setting → Flag
  | .named n _ => .named n
  | .new => .new
  | .free => .free

/-- Which of the seven entries of `mark` it sets. -/
def entry : Setting → Named
  | .named n _ => n
  | .new => .id
  | .free => .id

def words (s : Setting) : List CString :=
  match s with
  | .named n value => [(Flag.named n).word, value]
  | .new => [Flag.new.word]
  | .free => [Flag.free.word]

def Accepted : Setting → Prop
  | .named .ip value => FourOctets value.text
  | .named .port value => IsDigits value.text ∧
      (decimalValue value.text % 2 ^ 32 < 65536 ∨ 2 ^ 31 ≤ decimalValue value.text % 2 ^ 32)
  | _ => True

/-- What is set, where `c₀` is the configuration before the first option. -/
def Holds (c₀ c : Configuration) : Setting → Prop
  | .named .ip value => c.ip.toNat = address value.text
  | .named .port value => c.port.toNat = decimalValue value.text % 65536
  | .named .map value => c.client.mapName = value
  | .named .user value => c.client.userName = value
  | .named .pass value => c.client.password = value
  | .named .id value => c.client.creatorId = value ∧ c.client.needNewMap = 0
  | .named .node value => c.client.nodeName = value
  | .new => c.client.creatorId = c₀.client.creatorId ∧ c.client.needNewMap = 1
  | .free => c.client.creatorId = c₀.client.creatorId ∧ c.client.needNewMap = -1

end Setting

/-- The end of the command line: nothing, or `--args` and whatever comes behind it. -/
def IsTail (tail : List CString) : Prop := tail = [] ∨ ∃ rest, tail = Flag.args.word :: rest

/-- The settings name everything that must be named, nothing twice, and amount to `c`. -/
structure Describes (c₀ : Configuration) (settings : List Setting) (c : Configuration) : Prop where
  once : (settings.map Setting.entry).Nodup
  complete : ∀ n ∈ mandatory, n ∈ settings.map Setting.entry
  accepted : ∀ s ∈ settings, s.Accepted
  holds : ∀ s ∈ settings, s.Holds c₀ c
  nodeName_eq : Named.node ∉ settings.map Setting.entry → c.client.nodeName = c₀.client.nodeName

/-! One option. -/

def set (c : Configuration) : Setting → Option Configuration
  | .named n value => parseNamed c value n
  | .new => some (setNeedNewMap c 1)
  | .free => some (setNeedNewMap c (-1))

/-- The part of a configuration that belongs to an entry of `mark`. -/
def Same (c c' : Configuration) : Named → Prop
  | .ip => c'.ip = c.ip
  | .port => c'.port = c.port
  | .map => c'.client.mapName = c.client.mapName
  | .user => c'.client.userName = c.client.userName
  | .pass => c'.client.password = c.client.password
  | .id => c'.client.creatorId = c.client.creatorId ∧ c'.client.needNewMap = c.client.needNewMap
  | .node => c'.client.nodeName = c.client.nodeName

variable {c c' c₀ : Configuration} {s : Setting} {n : Named} {mark : Mark → Bool} {argv tail : List CString}
  {settings : List Setting} {server : SocketAddress}

theorem Same.refl (c : Configuration) (n : Named) : Same c c n := by
  cases n with
  | id => exact ⟨rfl, rfl⟩
  | _ => exact Eq.refl _

theorem parsePort_res {value : CString} {res : UInt16} (h : (parsePort value res).accepted = true) :
    (parsePort value res).res.toNat = decimalValue value.text % 65536 := by
  obtain ⟨hd, hr⟩ := (parsePort_accepted_iff value res).mp h
  have hnum : readDigits signedDigit 0 value.text = some (Int32.ofNat (decimalValue value.text)) :=
    (readDigits_eq_some signedDigit_ofNat).mpr ⟨hd, rfl⟩
  have hin : ¬ Int32.ofNat (decimalValue value.text) ≥ 65536 := (int32_in_range _).mpr hr
  simp only [parsePort, hnum, hin, if_false, Int32.toInt_ofNat', UInt16.ofInt, UInt16.toNat_ofNat', Int.bmod_def,
    Int32.size]
  omega

theorem set_isSome_iff : (set c s).isSome ↔ s.Accepted := by
  cases s with
  | named n value =>
    cases n with
    | ip =>
      simp only [set, parseNamed, parseIPArgument, Setting.Accepted]
      rw [← parseIP_accepted_iff value.text c.ip]
      split_ifs with h <;> simp [h]
    | port =>
      simp only [set, parseNamed, parsePortArgument, Setting.Accepted]
      rw [← parsePort_accepted_iff value c.port]
      split_ifs with h <;> simp [h]
    | _ => simp [set, parseNamed, Setting.Accepted]
  | new => simp [set, Setting.Accepted]
  | free => simp [set, Setting.Accepted]

/-- An option sets its own part and nothing else. -/
theorem set_same (h : set c s = some c') (hn : n ≠ s.entry) : Same c c' n := by
  cases s with
  | named m value =>
    cases m with
    | ip =>
      obtain ⟨-, he⟩ := Option.ite_none_right_eq_some.mp h
      obtain rfl := Option.some.inj he
      cases n <;> first | exact absurd rfl hn | exact ⟨rfl, rfl⟩ | exact Eq.refl _
    | port =>
      obtain ⟨-, he⟩ := Option.ite_none_right_eq_some.mp h
      obtain rfl := Option.some.inj he
      cases n <;> first | exact absurd rfl hn | exact ⟨rfl, rfl⟩ | exact Eq.refl _
    | _ =>
      obtain rfl := Option.some.inj h
      cases n <;> first | exact absurd rfl hn | exact ⟨rfl, rfl⟩ | exact Eq.refl _
  | _ =>
    obtain rfl := Option.some.inj h
    cases n <;> first | exact absurd rfl hn | exact ⟨rfl, rfl⟩ | exact Eq.refl _

theorem set_holds (h : set c s = some c') : s.Holds c c' := by
  cases s with
  | named m value =>
    cases m with
    | ip =>
      obtain ⟨ha, he⟩ := Option.ite_none_right_eq_some.mp h
      obtain rfl := Option.some.inj he
      exact toNat_parseIP ((parseIP_accepted_iff _ _).mp ha) _
    | port =>
      obtain ⟨ha, he⟩ := Option.ite_none_right_eq_some.mp h
      obtain rfl := Option.some.inj he
      exact parsePort_res ha
    | id =>
      obtain rfl := Option.some.inj h
      exact ⟨rfl, rfl⟩
    | _ =>
      obtain rfl := Option.some.inj h
      exact Eq.refl _
  | _ =>
    obtain rfl := Option.some.inj h
    exact ⟨rfl, rfl⟩

theorem holds_of_same (hs : s.Holds c₀ c) (hsame : Same c c' s.entry) : s.Holds c₀ c' := by
  cases s with
  | named m value =>
    cases m with
    | id => exact ⟨hsame.1.trans hs.1, hsame.2.trans hs.2⟩
    | ip => exact (congrArg UInt32.toNat hsame).trans hs
    | port => exact (congrArg UInt16.toNat hsame).trans hs
    | _ => exact hsame.trans hs
  | _ => exact ⟨hsame.1.trans hs.1, hsame.2.trans hs.2⟩

/-- What a setting amounts to depends on its part of the configuration before. -/
theorem holds_from (hs : s.Holds c c') (hsame : Same c₀ c s.entry) : s.Holds c₀ c' := by
  cases s with
  | named m value => cases m <;> exact hs
  | _ => exact ⟨hs.1.trans hsame.1, hs.2⟩

theorem same_of_holds (hs : s.Holds c₀ c) (hs' : s.Holds c₀ c') : Same c c' s.entry := by
  cases s with
  | named m value =>
    cases m with
    | id => exact ⟨hs'.1.trans hs.1.symm, hs'.2.trans hs.2.symm⟩
    | ip => exact UInt32.toNat_inj.mp (hs'.trans hs.symm)
    | port => exact UInt16.toNat_inj.mp (hs'.trans hs.symm)
    | _ => exact hs'.trans hs.symm
  | _ => exact ⟨hs'.1.trans hs.1.symm, hs'.2.trans hs.2.symm⟩

theorem eq_of_same (h : ∀ n, Same c c' n) : c' = c := by
  obtain ⟨⟨userName, password, mapName, creatorId, nodeName, needNewMap⟩, ip, port⟩ := c
  obtain ⟨⟨userName', password', mapName', creatorId', nodeName', needNewMap'⟩, ip', port'⟩ := c'
  obtain rfl : userName' = userName := h .user
  obtain rfl : password' = password := h .pass
  obtain rfl : mapName' = mapName := h .map
  obtain rfl : creatorId' = creatorId := (h .id).1
  obtain rfl : needNewMap' = needNewMap := (h .id).2
  obtain rfl : nodeName' = nodeName := h .node
  obtain rfl : ip' = ip := h .ip
  obtain rfl : port' = port := h .port
  rfl

/-! All options. -/

theorem Same.trans {c₁ : Configuration} (h : Same c c₁ n) (h' : Same c₁ c' n) : Same c c' n := by
  cases n with
  | id => exact ⟨h'.1.trans h.1, h'.2.trans h.2⟩
  | _ => exact Eq.trans h' h

theorem foldlM_set (h : settings.foldlM set c = some c') (hnodup : (settings.map Setting.entry).Nodup) :
    (∀ s ∈ settings, s.Accepted ∧ s.Holds c c') ∧ ∀ n, n ∉ settings.map Setting.entry → Same c c' n := by
  induction settings generalizing c with
  | nil =>
    obtain rfl : c = c' := by simpa using h
    exact ⟨by simp, fun n _ => .refl c n⟩
  | cons s settings ih =>
    rw [List.map_cons] at hnodup ⊢
    obtain ⟨c₁, hset, h⟩ := Option.bind_eq_some_iff.mp h
    obtain ⟨hnew, hnodup⟩ := List.nodup_cons.mp hnodup
    obtain ⟨hall, hother⟩ := ih h hnodup
    refine ⟨List.forall_mem_cons.mpr ⟨⟨?_, ?_⟩, fun t ht => ⟨(hall t ht).1, ?_⟩⟩, fun n hn => ?_⟩
    · exact set_isSome_iff.mp (Option.isSome_iff_exists.mpr ⟨c₁, hset⟩)
    · exact holds_of_same (set_holds hset) (hother _ hnew)
    · refine holds_from (hall t ht).2 (set_same hset fun he => ?_)
      exact hnew (he ▸ List.mem_map_of_mem ht)
    · obtain ⟨hne, hn⟩ := not_or.mp fun hm => hn (List.mem_cons.mpr hm)
      exact (set_same hset hne).trans (hother n hn)

theorem foldlM_set_isSome (h : ∀ s ∈ settings, s.Accepted) (c : Configuration) : ∃ c', settings.foldlM set c = some c' := by
  induction settings generalizing c with
  | nil => exact ⟨c, rfl⟩
  | cons s settings ih =>
    obtain ⟨hs, hall⟩ := List.forall_mem_cons.mp h
    obtain ⟨c₁, hset⟩ := Option.isSome_iff_exists.mp ((set_isSome_iff (c := c)).mpr hs)
    obtain ⟨c', hc⟩ := ih hall c₁
    exact ⟨c', Option.bind_eq_some_iff.mpr ⟨c₁, hset, hc⟩⟩

/-- Two configurations that one list of settings describes are the same. -/
theorem Describes.unique (h : Describes c₀ settings c) (h' : Describes c₀ settings c') : c' = c := by
  refine eq_of_same fun n => ?_
  by_cases hn : n ∈ settings.map Setting.entry
  · obtain ⟨s, hs, rfl⟩ := List.mem_map.mp hn
    exact same_of_holds (h.holds s hs) (h'.holds s hs)
  · cases n with
    | node => exact (h'.nodeName_eq hn).trans (h.nodeName_eq hn).symm
    | _ => exact absurd (h.complete _ (by decide)) hn

/-- What the options do one after the other is what they describe. -/
theorem describes_iff (hnodup : (settings.map Setting.entry).Nodup)
    (hcomplete : ∀ n ∈ mandatory, n ∈ settings.map Setting.entry) :
    settings.foldlM set c₀ = some c ↔ Describes c₀ settings c := by
  have hdescribes {c : Configuration} (h : settings.foldlM set c₀ = some c) : Describes c₀ settings c := by
    obtain ⟨hall, hother⟩ := foldlM_set h hnodup
    exact ⟨hnodup, hcomplete, fun s hs => (hall s hs).1, fun s hs => (hall s hs).2, fun hn => hother .node hn⟩
  refine ⟨hdescribes, fun h => ?_⟩
  obtain ⟨c', hc⟩ := foldlM_set_isSome h.accepted c₀
  rw [hc, (hdescribes hc).unique h]

/-! The loop. -/

theorem flagOf_word (flag : Flag) : flagOf flag.word = some flag := by
  cases flag with
  | named n => cases n <;> decide +kernel
  | new => decide +kernel
  | free => decide +kernel
  | args => decide +kernel

theorem eq_word {arg : CString} {flag : Flag} (h : flagOf arg = some flag) : arg = flag.word := by
  have htext : flag.text = arg.text := by simpa using List.find?_some h
  cases arg
  cases htext
  rfl

/-- A setting is taken if its entry is free and its argument is accepted. -/
theorem parseFlags_words (s : Setting) (argv : List CString) : parseFlags mark c (s.words ++ argv) =
    if mark (.named s.entry) then .usage
    else match set c s with
      | none => .usage
      | some c => parseFlags (Function.update mark (.named s.entry) true) c argv := by
  cases s with
  | named n value =>
    simp only [Setting.words, List.cons_append, List.nil_append, parseFlags, flagOf_word, Flag.mark, Setting.entry, set]
    rfl
  | new =>
    simp only [Setting.words, List.cons_append, List.nil_append, parseFlags, flagOf_word, Flag.mark, Setting.entry, set]
    rfl
  | free =>
    simp only [Setting.words, List.cons_append, List.nil_append, parseFlags, flagOf_word, Flag.mark, Setting.entry, set]
    rfl

theorem finish_eq_parsed : finish mark c = .parsed c' server ↔
    (∀ n ∈ mandatory, mark (.named n) = true) ∧ c' = c ∧ server = c.server := by
  by_cases h : ∀ n ∈ mandatory, mark (.named n) = true
  · rw [finish, if_pos h, Parsed.parsed.injEq]
    exact ⟨fun he => ⟨h, he.1.symm, he.2.symm⟩, fun he => ⟨he.2.1.symm, he.2.2.symm⟩⟩
  · rw [finish, if_neg h]
    exact ⟨fun he => (nomatch he), fun he => absurd he.1 h⟩

theorem parseFlags_tail (ht : IsTail tail) (hargs : mark .args = false) :
    parseFlags mark c tail = .parsed c' server ↔
      (∀ n ∈ mandatory, mark (.named n) = true) ∧ c' = c ∧ server = c.server := by
  rcases ht with rfl | ⟨rest, rfl⟩
  · exact finish_eq_parsed
  · simp only [parseFlags, flagOf_word, Flag.mark, hargs, Bool.false_eq_true, if_false, finish_eq_parsed]
    simp

theorem parseFlags_iff (ht : IsTail tail) (hargs : mark .args = false) :
    parseFlags mark c (settings.flatMap Setting.words ++ tail) = .parsed c' server ↔
      (settings.map Setting.entry).Nodup ∧ (∀ n ∈ settings.map Setting.entry, mark (.named n) = false) ∧
        (∀ n ∈ mandatory, mark (.named n) = true ∨ n ∈ settings.map Setting.entry) ∧
        settings.foldlM set c = some c' ∧ server = c'.server := by
  induction settings generalizing mark c with
  | nil =>
    rw [List.flatMap_nil, List.nil_append, parseFlags_tail ht hargs]
    constructor
    · rintro ⟨hall, rfl, rfl⟩
      exact ⟨List.nodup_nil, by simp, fun n hn => Or.inl (hall n hn), rfl, rfl⟩
    · rintro ⟨-, -, hall, hc, rfl⟩
      obtain rfl : c = c' := by simpa using hc
      exact ⟨fun n hn => (hall n hn).resolve_right (by simp), rfl, rfl⟩
  | cons s settings ih =>
    rw [List.flatMap_cons, List.append_assoc, parseFlags_words, List.map_cons, List.nodup_cons, List.forall_mem_cons]
    by_cases hmark : mark (.named s.entry) = true
    · rw [if_pos hmark]
      exact ⟨fun h => (nomatch h), fun h => absurd (hmark.symm.trans h.2.1.1) (by decide)⟩
    rw [if_neg hmark]
    cases hset : set c s with
    | none =>
      have hfold : (s :: settings).foldlM set c = none := by simp [hset]
      rw [hfold]
      exact ⟨fun h => (nomatch h), fun h => (nomatch h.2.2.2.1)⟩
    | some c₁ =>
      have hfold : (s :: settings).foldlM set c = settings.foldlM set c₁ := by simp [hset]
      have hmark : mark (.named s.entry) = false := Bool.eq_false_iff.mpr hmark
      have hupdate (n : Named) : Function.update mark (.named s.entry) true (.named n) =
          if n = s.entry then true else mark (.named n) := by
        by_cases hn : n = s.entry
        · rw [hn, Function.update_self, if_pos rfl]
        · rw [Function.update_of_ne (fun he => hn (Mark.named.inj he)), if_neg hn]
      rw [hfold]
      show parseFlags _ c₁ _ = _ ↔ _
      rw [ih (by rw [Function.update_of_ne (by simp), hargs])]
      constructor
      · rintro ⟨hnodup, hfree, hall, hc, hserver⟩
        have hnew : s.entry ∉ settings.map Setting.entry := by
          intro hm
          have := hfree _ hm
          rw [hupdate, if_pos rfl] at this
          cases this
        refine ⟨⟨hnew, hnodup⟩, ⟨hmark, fun n hn => ?_⟩, fun n hn => ?_, hc, hserver⟩
        · have hne : n ≠ s.entry := fun he => hnew (he ▸ hn)
          have := hfree n hn
          rwa [hupdate, if_neg hne] at this
        · rcases hall n hn with h | h
          · rw [hupdate] at h
            by_cases hs : n = s.entry
            · exact Or.inr (hs ▸ List.mem_cons_self)
            · exact Or.inl (by rwa [if_neg hs] at h)
          · exact Or.inr (List.mem_cons_of_mem _ h)
      · rintro ⟨⟨hnew, hnodup⟩, ⟨-, hfree⟩, hall, hc, hserver⟩
        refine ⟨hnodup, fun n hn => ?_, fun n hn => ?_, hc, hserver⟩
        · have hne : n ≠ s.entry := fun he => hnew (he ▸ hn)
          rw [hupdate, if_neg hne]
          exact hfree n hn
        · rw [hupdate]
          rcases hall n hn with h | h
          · exact Or.inl (by rw [h, ite_self])
          · rcases List.mem_cons.mp h with rfl | h
            · exact Or.inl (if_pos rfl)
            · exact Or.inr h

/-- A command line that is taken consists of settings and a tail. -/
theorem exists_settings (h : parseFlags mark c argv = .parsed c' server) :
    ∃ (settings : List Setting) (tail : List CString), argv = settings.flatMap Setting.words ++ tail ∧ IsTail tail := by
  fun_induction parseFlags mark c argv with
  | case1 mark c => exact ⟨[], [], rfl, Or.inl rfl⟩
  | case2 mark c arg argv hflag => cases h
  | case3 mark c arg argv flag hflag hmark => cases h
  | case4 mark c arg argv hflag hmark =>
    rw [eq_word hflag]
    exact ⟨[], _, rfl, Or.inr ⟨argv, rfl⟩⟩
  | case5 mark c arg argv hflag hmark mark' ih =>
    obtain ⟨settings, tail, rfl, ht⟩ := ih h
    rw [eq_word hflag]
    exact ⟨.new :: settings, tail, rfl, ht⟩
  | case6 mark c arg argv hflag hmark mark' ih =>
    obtain ⟨settings, tail, rfl, ht⟩ := ih h
    rw [eq_word hflag]
    exact ⟨.free :: settings, tail, rfl, ht⟩
  | case7 mark c arg n hflag hmark => cases h
  | case8 mark c arg n value argv hset hflag hmark => cases h
  | case9 mark c arg n value argv c' hset hflag hmark mark' ih =>
    obtain ⟨settings, tail, rfl, ht⟩ := ih h
    rw [eq_word hflag]
    exact ⟨.named n value :: settings, tail, rfl, ht⟩

theorem parseArguments_words (ht : IsTail tail) :
    parseArguments c₀ (settings.flatMap Setting.words ++ tail) = .parsed c server ↔
      Describes c₀ settings c ∧ server = c.server := by
  have hfree : ∀ n ∈ settings.map Setting.entry, (fun _ : Mark => false) (.named n) = false := fun _ _ => rfl
  rw [parseArguments, parseFlags_iff ht rfl]
  constructor
  · rintro ⟨hnodup, -, hall, hc, hserver⟩
    have hcomplete : ∀ n ∈ mandatory, n ∈ settings.map Setting.entry := fun n hn =>
      (hall n hn).resolve_left (by simp)
    exact ⟨(describes_iff hnodup hcomplete).mp hc, hserver⟩
  · rintro ⟨h, hserver⟩
    exact ⟨h.once, hfree, fun n hn => Or.inr (h.complete n hn), (describes_iff h.once h.complete).mpr h, hserver⟩

/-- Exactly which command lines the client takes, and what it makes of them. -/
theorem parseArguments_iff (c₀ c : Configuration) (argv : List CString) (server : SocketAddress) :
    parseArguments c₀ argv = .parsed c server ↔ server = c.server ∧
      ∃ (settings : List Setting) (tail : List CString), argv = settings.flatMap Setting.words ++ tail ∧ IsTail tail ∧
        Describes c₀ settings c := by
  constructor
  · intro h
    obtain ⟨settings, tail, rfl, ht⟩ := exists_settings h
    obtain ⟨hdescribes, hserver⟩ := (parseArguments_words ht).mp h
    exact ⟨hserver, settings, tail, rfl, ht, hdescribes⟩
  · rintro ⟨hserver, settings, tail, rfl, ht, hdescribes⟩
    exact (parseArguments_words ht).mpr ⟨hdescribes, hserver⟩

/-- Neither the order of the options nor what comes behind `--args` matters, nor what stood in
the members before that the constructor leaves unset. -/
theorem parseArguments_perm {c₁ : Configuration} {settings' : List Setting} {tail' : List CString}
    (hp : settings.Perm settings') (ht : IsTail tail) (ht' : IsTail tail')
    (hcreator : c₁.client.creatorId = c₀.client.creatorId) (hnode : c₁.client.nodeName = c₀.client.nodeName)
    (h : parseArguments c₀ (settings.flatMap Setting.words ++ tail) = .parsed c server) :
    parseArguments c₁ (settings'.flatMap Setting.words ++ tail') = .parsed c server := by
  obtain ⟨hd, hserver⟩ := (parseArguments_words ht).mp h
  have hentries : (settings.map Setting.entry).Perm (settings'.map Setting.entry) := hp.map _
  refine (parseArguments_words ht').mpr ⟨⟨?_, ?_, ?_, ?_, ?_⟩, hserver⟩
  · exact hentries.nodup_iff.mp hd.once
  · exact fun n hn => hentries.mem_iff.mp (hd.complete n hn)
  · exact fun s hs => hd.accepted s (hp.mem_iff.mpr hs)
  · intro s hs
    have hholds := hd.holds s (hp.mem_iff.mpr hs)
    cases s with
    | named n value => cases n <;> exact hholds
    | _ => exact ⟨hholds.1.trans hcreator.symm, hholds.2⟩
  · exact fun hn => (hd.nodeName_eq fun hm => hn (hentries.mem_iff.mp hm)).trans hnode.symm

def sampleSettings : List Setting :=
  [.named .ip ⟨ascii "192.168.0.1", by decide +kernel⟩, .named .port ⟨ascii "9339", by decide +kernel⟩,
    .named .map ⟨ascii "router", by decide +kernel⟩, .named .user ⟨ascii "u", by decide +kernel⟩,
    .named .pass ⟨ascii "--new", by decide +kernel⟩, .new]

theorem sampleSettings_accepted : ∀ s ∈ sampleSettings, s.Accepted := by
  have hip : (parseIP (ascii "192.168.0.1") 0).accepted = true := by decide +kernel
  simp only [sampleSettings, List.forall_mem_cons]
  exact ⟨(parseIP_accepted_iff _ 0).mp hip, ⟨by decide +kernel, Or.inl (by decide +kernel)⟩, trivial, trivial, trivial,
    trivial, by simp⟩

/-- The password may look like an option. -/
theorem parseArguments_perm_of_sample : ∃ c₀ c server, c₀.client.nodeName.text = [] ∧
    parseArguments c₀ (sampleSettings.flatMap Setting.words ++ []) = .parsed c server ∧
      parseArguments c₀ (sampleSettings.reverse.flatMap Setting.words ++ [Flag.args.word, Flag.args.word]) =
        .parsed c server := by
  let empty : CString := ⟨[], by simp⟩
  let c₀ : Configuration := ⟨⟨empty, empty, empty, empty, empty, 0⟩, 0, 0⟩
  obtain ⟨c, hc⟩ := foldlM_set_isSome sampleSettings_accepted c₀
  have hdescribes := (describes_iff (by decide) (by decide)).mp hc
  have hparsed := (parseArguments_words (Or.inl rfl)).mpr ⟨hdescribes, rfl⟩
  exact ⟨c₀, c, c.server, rfl, hparsed,
    parseArguments_perm (List.reverse_perm _).symm (Or.inl rfl) (Or.inr ⟨_, rfl⟩) rfl rfl hparsed⟩

end CommandLine

end Overlay
