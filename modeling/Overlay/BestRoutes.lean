import Overlay.RoundTripTimes

/-! What an exchange of advertisements is for: while no node measures, each of them has one
round trip time for a server, and a node that has heard of some others since its last reset
forwards by way of the best of them. -/

namespace Overlay

open BestSlot ByteMemory Execution Interleaving

/-- The event is one of the node's own requests, or a reply to them. -/
def Event.measures (e : Event) : Bool :=
  match e.onTable with
  | some (.ping _) => true
  | some (.echo _ _ _) => true
  | some .advertise => false
  | some (.advertisement _ _) => false
  | none => false

theorem not_inf_lt (v : UInt16) : ¬ 65535 < v := by
  have hv := v.toNat_lt
  rw [UInt16.lt_iff_toNat_lt]
  show ¬ 65535 < v.toNat
  omega

/-- What an event that measures nothing can do to the table. -/
theorem quiet_cases {m m' : Machine} {e : Event} {out : List Sent} (h : m.step e = some (m', out))
    (hq : e.measures = false) : m'.table = m.table ∨
      (e = .advertise ∧ m'.table = m.table.fillForwardingTable.resetLearningTable) ∨
      ∃ frame now, e = .frame frame now ∧ ValidUdp frame ∧ portDst frame = 5000 ∧
        m.table.receiveAdvertiseData (frame.drop 42) (ipSrc frame) = some m'.table := by
  cases Machine.step_cases h with
  | ping clock => cases hq
  | advertise _ => exact Or.inr (Or.inl ⟨rfl, rfl⟩)
  | unknown _ _ => exact Or.inl rfl
  | own _ _ hs =>
    obtain ⟨rfl, _⟩ := Machine.sendUdpPacket_cases hs
    exact Or.inl rfl
  | @frame frame now _ _ hf =>
    cases hf with
    | rejected _ => exact Or.inl rfl
    | echo hi _ =>
      rw [Event.measures, Event.onTable_echo hi] at hq
      cases hq
    | advertisement hu hp ht =>
      exact Or.inr (Or.inr ⟨frame, now, rfl, hu, hp, ht⟩)
    | forward _ _ hf =>
      obtain ⟨_, _, _, rfl⟩ := Machine.natForward_cases hf
      exact Or.inl rfl
    | reply _ _ _ _ hr =>
      obtain ⟨rfl, _⟩ := Machine.natReply_cases hr
      exact Or.inl rfl
    | ignored _ _ _ _ _ => exact Or.inl rfl

theorem ownRtt_quiet {m m' : Machine} {e : Event} {out : List Sent} (hw : m.table.WellFormed)
    (h : m.step e = some (m', out)) (hq : e.measures = false) (s : UInt32) : m'.table.ownRtt s = m.table.ownRtt s := by
  rcases quiet_cases h hq with ht | ⟨-, ht⟩ | ⟨frame, now, -, -, -, ht⟩
  · rw [ht]
  · rw [ht]
    exact (m.table.ownRtt_advertise s).1
  · obtain ⟨_, _, hl⟩ := ServerTable.learnAll_of_receiveAdvertiseData ht
    exact ((ServerTable.routeOf_learnAll hw hl).2 s).1

abbrev OverlayMoment (ι : Type*) := Taken (World ι Machine Bytes) (Move ι Event Int) (List Sent)

section Rounds

variable {ι : Type*} [DecidableEq ι] {iface : ι → Fin 2 → Interface} {info : ι → Str}
  {w₀ w u v w' : World ι Machine Bytes} {h h₀ h₁ h₂ : List (OverlayMoment ι)} {a p : ι}

def Hears (a : ι) (h : List (OverlayMoment ι)) (p : ι) : Prop := ∃ x ∈ h, ∃ frame, Processes a p frame x

def Quiet (h : List (OverlayMoment ι)) : Prop := ∀ x ∈ h, ∀ r ∈ overlay.turn x.before x.event, r.2.measures = false

instance (h : List (OverlayMoment ι)) : Decidable (Quiet h) :=
  inferInstanceAs (Decidable (∀ x ∈ h, ∀ r ∈ overlay.turn x.before x.event, r.2.measures = false))

/-- A time in which no node measures: first `a` resets, and from then on it gets advertisements
of this time only. -/
structure Round (a : ι) (w u v w' : World ι Machine Bytes) (h₁ h₂ : List (OverlayMoment ι)) : Prop where
  before : Run overlay.move w h₁ u
  reset : ∃ out, overlay.move u (.own a .advertise) = some (v, out)
  after : Run overlay.move v h₂ w'
  quiet : Quiet (h₁ ++ h₂)
  once : ∀ x ∈ h₂, x.event ≠ .own a .advertise
  fresh : ∀ x ∈ h₂, ∀ k ∈ x.event.deliveredTo a, w.pool.length ≤ k

theorem run_sender (hs : Started iface info w₀) (hr : Run overlay.move w₀ h w) (p : ι) :
    (w.party p).table.WellFormed ∧ (w.party p).table.Measured ∧ (w.party p).table.ipGateway = (w₀.party p).table.ipGateway := by
  have hrp := Parties.run_party hr p
  obtain ⟨hi, hx, hw⟩ := Machine.run_table (hs.node p) hrp
  refine ⟨hw, ?_, hx.ipGateway_eq⟩
  refine hrp.invariant (P := fun m => m.table.Measured) hi.measured fun {m e m' o} hm he => ?_
  rcases Machine.step_table he with ⟨_, ht, _⟩ | ⟨te, _, ht, _⟩
  · rwa [ht]
  · exact hm.step ht

theorem ownRtt_run (hs : Started iface info w₀) (hr₀ : Run overlay.move w₀ h₀ w) (hr : Run overlay.move w h v)
    (hq : Quiet h) (p : ι) (s : UInt32) : (v.party p).table.ownRtt s = (w.party p).table.ownRtt s := by
  induction hr with
  | start => rfl
  | @snoc h t z mv o hr he ih =>
    have ih := ih fun x hx => hq x (List.mem_append_left _ hx)
    obtain ⟨j, e, m, hturn, hstep, rfl⟩ := Parties.move_cases he
    by_cases hj : p = j
    · subst hj
      have hquiet := hq ⟨t, mv, o⟩ (by simp) (p, e) hturn
      have hw := (run_sender hs (hr₀.trans hr) p).1
      rw [← ih]
      show (Function.update t.party p m p).table.ownRtt s = _
      rw [Function.update_self]
      exact ownRtt_quiet hw hstep hquiet s
    · rw [← ih]
      show (Function.update t.party j m p).table.ownRtt s = _
      rw [Function.update_of_ne hj]

/-- An advertisement of the quiet time tells what its sender had measured before. -/
theorem sent_in_round (hs : Started iface info w₀) (hr₀ : Run overlay.move w₀ h₀ w) (hr : Run overlay.move w h v)
    (hq : Quiet h) {k : Nat} {frame : Bytes} (hk : w.pool.length ≤ k) (hm : v.pool[k]? = some (p, frame)) :
    ipSrc frame = (iface p 0).ip ∧ ipP frame = 17 ∧ portDst frame = 5000 ∧ ∃ t : ServerTable,
      t.Indexed ∧ t.Measured ∧ t.configured ≤ t.known ∧ t.advertiseData = some (frame.drop 42) ∧
      ∀ s, t.ownRtt s = (w.party p).table.ownRtt s := by
  obtain ⟨g₁, y, g₂, e, rfl, hturn, hsend⟩ := Parties.origin_from hr hk hm
  obtain ⟨_, hr₁, hmove, _⟩ := hr.split_at
  have htotal := hr₀.trans hr₁
  obtain ⟨j, e', m, hturn', hstep, _⟩ := Parties.move_cases hmove
  obtain ⟨rfl, rfl⟩ := Prod.mk.inj (Option.some.inj (hturn.symm.trans hturn'))
  cases e with
  | ping | dsa | lsa | frame => cases hsend
  | advertise =>
    obtain ⟨data, hd, _, ho⟩ := Machine.step_advertise hstep
    rw [ho] at hsend
    obtain rfl := List.mem_singleton.mp hsend
    obtain ⟨hw, hmeasured, _⟩ := run_sender hs htotal p
    refine ⟨?_, rfl, portDst_advertisePacket _ _ _ _, (y.before.party p).table, (run_tables hs htotal p).1, hmeasured,
      hw.configured_le_known, hd, ?_⟩
    · rw [ipSrc_advertisePacket, run_iface (hs.node p) (Parties.run_party htotal p)]
    · exact ownRtt_run hs hr₀ hr₁ (fun x hx => hq x (List.mem_append_left _ hx)) p

/-- What `a` has learned for a server from the nodes it has heard of since it was at `t`. -/
structure Learned (iface : ι → Fin 2 → Interface) (w : World ι Machine Bytes) (t : ServerTable) (s : UInt32)
    (heard : ι → Prop) (u : ServerTable) : Prop where
  route : Settled (fun p => (iface p 0).ip) (fun p => (w.party p).table.ownRtt s) (t.routeOf s) heard (u.routeOf s)
  known : u.getIndexByIp s = none ↔ t.getIndexByIp s = none ∧ ∀ p, heard p → (w.party p).table.ownRtt s = 65535

omit [DecidableEq ι] in
theorem Learned.congr {t t' : ServerTable} {s : UInt32} {heard heard' : ι → Prop} (h : Learned iface w t s heard t')
    (he : ∀ p, heard p ↔ heard' p) : Learned iface w t s heard' t' := by
  obtain rfl : heard = heard' := funext fun p => propext (he p)
  exact h

omit [DecidableEq ι] in
/-- One more advertisement of the quiet time. -/
theorem Learned.receive (hs : Started iface info w₀) {t t' t'' v : ServerTable} {s : UInt32} {heard : ι → Prop}
    (h : Learned iface w t s heard t') (hw : t'.WellFormed) (hgateway : (t.routeOf s).hop ≠ (iface p 0).ip)
    {data : Bytes} (hx : v.Indexed) (hm : v.Measured) (hc : v.configured ≤ v.known) (hv : v.advertiseData = some data)
    (hown : v.ownRtt s = (w.party p).table.ownRtt s) (hr : t'.receiveAdvertiseData data (iface p 0).ip = some t'') :
    Learned iface w t s (fun q => heard q ∨ q = p) t'' := by
  obtain ⟨-, hnone, offers, hoffers, hempty, hroute⟩ := ServerTable.receives_own hw hx hm hc hv hr s
  rw [hown] at hnone hoffers hempty
  constructor
  · rw [hroute]
    by_cases hn : offers = []
    · rw [hn, List.foldl_nil]
      refine h.route.silent ?_
      rw [hempty.mp hn]
      exact not_inf_lt _
    · exact h.route.offers (fun q hq => hs.address_inj q p hq) hgateway.symm hoffers hn
  · rw [hnone, h.known, and_assoc, and_congr_right_iff]
    intro _
    constructor
    · rintro ⟨hheard, hp⟩ q (hq | rfl)
      · exact hheard q hq
      · exact hp
    · intro hall
      exact ⟨fun q hq => hall q (Or.inl hq), hall p (Or.inr rfl)⟩

omit [DecidableEq ι] in
theorem hears_snoc {x : OverlayMoment ι} : Hears a (h ++ [x]) p ↔ Hears a h p ∨ ∃ frame, Processes a p frame x := by
  simp only [Hears, List.mem_append, List.mem_singleton, or_and_right, exists_or, exists_eq_left]

theorem hears_other {x : OverlayMoment ι} (hd : x.event.deliveredTo a = none) : Hears a (h ++ [x]) p ↔ Hears a h p := by
  rw [hears_snoc, or_iff_left]
  rintro ⟨frame, k, now, hev, -⟩
  rw [hev, Move.deliveredTo, if_pos rfl] at hd
  cases hd

/-- A move of the quiet time after the reset of `a`. -/
theorem learned_move (hs : Started iface info w₀) (hr₀ : Run overlay.move w₀ h₀ w) (hr : Run overlay.move w h u)
    (hq : Quiet h) {mv : Move ι Event Int} {out : List Sent} (he : overlay.move u mv = some (v, out))
    (hquiet : ∀ r ∈ overlay.turn u mv, r.2.measures = false) (honce : mv ≠ .own a .advertise)
    (hfresh : ∀ k ∈ mv.deliveredTo a, w.pool.length ≤ k) {t : ServerTable} {s : UInt32}
    (hgateway : ∀ p, (t.routeOf s).hop ≠ (iface p 0).ip) (hl : Learned iface w t s (Hears a h₂) (u.party a).table) :
    Learned iface w t s (Hears a (h₂ ++ [⟨u, mv, out⟩])) (v.party a).table := by
  obtain ⟨j, e, m, hturn, hstep, rfl⟩ := Parties.move_cases he
  by_cases hj : j = a
  · subst hj
    show Learned iface w t s _ (Function.update u.party j m j).table
    rw [Function.update_self]
    have hmeasures := hquiet (j, e) hturn
    rcases Parties.turn_cases hturn with ⟨rfl, hown⟩ | ⟨k, now, p, frame, rfl, hk, rfl⟩
    · have htable : m.table = (u.party j).table := by
        rcases quiet_cases hstep hmeasures with ht | ⟨rfl, -⟩ | ⟨frame, now, rfl, hu, hp, -⟩
        · exact ht
        · exact absurd rfl honce
        · -- an advertisement is not among what a node does on its own
          have hs : (Event.frame frame now).advertiser = some (ipSrc frame, etherShost frame) :=
            if_pos ⟨(isValidPacket_iff frame).mpr (Or.inl hu), hu.ipP_eq, hp⟩
          have hn : (Event.frame frame now).advertiser.isNone = true := hown
          rw [hs] at hn
          cases hn
      rw [htable]
      exact hl.congr fun p => (hears_other rfl).symm
    · have hle := hfresh k (if_pos rfl)
      obtain ⟨hsrc, hproto, hport, v, hx, hm, hc, hdata, hown⟩ := sent_in_round hs hr₀ hr hq hle hk
      have hframe : (u.party j).step (.frame frame now) = some (m, out) := hstep
      have hprocesses (q : ι) : (∃ frame', Processes j q frame' ⟨u, .deliver j k now, out⟩) ↔
          q = p ∧ isValidPacket frame = some true := by
        constructor
        · rintro ⟨frame', k', now', hev, hk', hv⟩
          obtain ⟨-, rfl, -⟩ := Move.deliver.inj hev
          obtain ⟨rfl, rfl⟩ := Prod.mk.inj (Option.some.inj (hk.symm.trans hk'))
          exact ⟨rfl, hv⟩
        · rintro ⟨rfl, hv⟩
          exact ⟨frame, k, now, rfl, hk, hv⟩
      by_cases hv : isValidPacket frame = some true
      · have hu := validUdp_of_accepted hv hproto
        have honTable : (Event.frame frame now).onTable = some (.advertisement (frame.drop 42) (iface p 0).ip) := by
          rw [Event.onTable_udp hu, if_pos hport, hsrc]
        have ht : (u.party j).table.receiveAdvertiseData (frame.drop 42) (iface p 0).ip = some m.table := by
          rcases Machine.step_table hframe with ⟨hn, -, -⟩ | ⟨te, hte, ht, -⟩
          · exact absurd (honTable.symm.trans hn) (by simp)
          · obtain rfl := Option.some.inj (honTable.symm.trans hte)
            exact ht
        have hw := (run_sender hs (hr₀.trans hr) j).1
        refine (hl.receive hs hw (hgateway p) hx hm hc hdata (hown s) ht).congr fun q => ?_
        rw [hears_snoc, hprocesses]
        simp only [hv, and_true]
      · have htable : m.table = (u.party j).table := by
          rcases Machine.step_table hframe with ⟨-, ht, -⟩ | ⟨te, hte, -, -⟩
          · exact ht
          · have hn : (Event.frame frame now).onTable = none := if_neg hv
            exact absurd (hn.symm.trans hte) (by simp)
        rw [htable]
        refine hl.congr fun q => ?_
        rw [hears_snoc, hprocesses]
        simp only [hv, and_false, or_false]
  · show Learned iface w t s _ (Function.update u.party j m a).table
    rw [Function.update_of_ne (Ne.symm hj)]
    refine hl.congr fun p => (hears_other ?_).symm
    cases mv with
    | own i e' => rfl
    | deliver i k now =>
      obtain ⟨⟨q, frame⟩, -, ht⟩ := Option.map_eq_some_iff.mp hturn
      obtain ⟨rfl, -⟩ := Prod.mk.inj ht
      exact if_neg hj

/-- After the reset, every server has the least of the round trip times that `a` has measured
itself and those of the nodes it has heard of. -/
theorem Round.learned (hs : Started iface info w₀) (hr₀ : Run overlay.move w₀ h₀ w) (hround : Round a w u v w' h₁ h₂)
    (s : UInt32) : Learned iface w (v.party a).table s (Hears a h₂) (w'.party a).table ∧
      (v.party a).table.routeOf s = ⟨if (v.party a).table.getIndexByIp s = none then 0
        else (w₀.party a).table.ipGateway.uint, (w.party a).table.ownRtt s⟩ := by
  obtain ⟨out, hreset⟩ := hround.reset
  have hturn : overlay.turn u (.own a .advertise) = some (a, .advertise) := rfl
  have hbefore : Quiet h₁ := fun x hx => hround.quiet x (List.mem_append_left _ hx)
  have hr : Run overlay.move w (h₁ ++ [⟨u, .own a .advertise, out⟩]) v := hround.before.snoc hreset
  have hquiet : Quiet (h₁ ++ [⟨u, .own a .advertise, out⟩]) := by
    intro x hx r hmem
    rcases List.mem_append.mp hx with hx | hx
    · exact hbefore x hx r hmem
    · obtain rfl := List.mem_singleton.mp hx
      obtain rfl := Option.some.inj (hturn.symm.trans hmem)
      rfl
  obtain ⟨j, e, m, hturn', hstep, hv⟩ := Parties.move_cases hreset
  obtain ⟨rfl, rfl⟩ := Prod.mk.inj (Option.some.inj (hturn.symm.trans hturn'))
  obtain ⟨_, _, hm, _⟩ := Machine.step_advertise hstep
  have hstart : (v.party a).table.routeOf s = ⟨if (v.party a).table.getIndexByIp s = none then 0
      else (w₀.party a).table.ipGateway.uint, (w.party a).table.ownRtt s⟩ := by
    obtain ⟨-, hknown, hroute⟩ := (u.party a).table.ownRtt_advertise s
    have hparty : v.party a = m := by
      rw [hv]
      exact Function.update_self ..
    have htable : (v.party a).table = (u.party a).table.fillForwardingTable.resetLearningTable := by rw [hparty, hm]
    rw [htable, hroute, ← ownRtt_run hs hr₀ hround.before hbefore a s, (run_sender hs (hr₀.trans hround.before) a).2.2]
    by_cases hn : (u.party a).table.getIndexByIp s = none
    · rw [if_pos hn, if_pos (hknown.mpr hn)]
    · rw [if_neg hn, if_neg (mt hknown.mp hn)]
  refine ⟨?_, hstart⟩
  have hgateway (p : ι) : ((v.party a).table.routeOf s).hop ≠ (iface p 0).ip := by
    rw [hstart]
    by_cases hn : (v.party a).table.getIndexByIp s = none
    · rw [if_pos hn]
      exact (hs.address_ne_zero p).symm
    · rw [if_neg hn]
      exact (hs.address_ne_gateway p a).symm
  obtain ⟨hafter, honce, hfresh⟩ := And.intro hround.after (And.intro hround.once hround.fresh)
  have hlast : Quiet h₂ := fun x hx => hround.quiet x (List.mem_append_right _ hx)
  clear hround
  induction hafter with
  | start => exact ⟨settled_start.congr fun p => by simp [Hears], by simp [Hears]⟩
  | @snoc h t z mv o hrun he ih =>
    have hinit {x : OverlayMoment ι} (hx : x ∈ h) : x ∈ h ++ [⟨t, mv, o⟩] := List.mem_append_left _ hx
    have hl := ih (fun x hx => honce x (hinit hx)) (fun x hx => hfresh x (hinit hx)) (fun x hx => hlast x (hinit hx))
    have hall : Quiet (h₁ ++ [⟨u, .own a .advertise, out⟩] ++ h) := by
      intro x hx
      rcases List.mem_append.mp hx with hx | hx
      · exact hquiet x hx
      · exact hlast x (hinit hx)
    exact learned_move hs hr₀ (hr.trans hrun) hall he (hlast ⟨t, mv, o⟩ (by simp)) (honce ⟨t, mv, o⟩ (by simp))
      (hfresh ⟨t, mv, o⟩ (by simp)) hgateway hl

/-- The round trip time that a node has measured itself. -/
def measuredRtt (w : World ι Machine Bytes) (p : ι) (s : UInt32) : UInt16 := (w.party p).table.ownRtt s

/-- What an exchange of advertisements comes to. Take a time in which no node measures, and a
node that starts it with `advertise`, hears of some others, however often and in whatever
order, and ends it with `advertise`: it then knows each server that one of them has a round
trip time for, and forwards by way of a node with the least one, by way of its own gateway if
none of the others has less. -/
theorem round_finds_best_routes (hs : Started iface info w₀) (hr₀ : Run overlay.move w₀ h₀ w)
    (hround : Round a w u v w' h₁ h₂) {w'' : World ι Machine Bytes} {out : List Sent}
    (hend : overlay.move w' (.own a .advertise) = some (w'', out)) :
    (∀ p s, Hears a h₂ p → measuredRtt w p s ≠ 65535 → ((w''.party a).table.getIndexByIp s).isSome) ∧
    ∀ i < (w''.party a).table.known,
      let s := ((w''.party a).table.serverInfoes i).ip.uint
      let hop := ((w''.party a).table.serverInfoes i).forwardingTable.ipNextHopRtt.uint
      (hop = (w₀.party a).table.ipGateway.uint ∧ ∀ p, Hears a h₂ p → measuredRtt w a s ≤ measuredRtt w p s) ∨
      ∃ p, Hears a h₂ p ∧ hop = (iface p 0).ip ∧ measuredRtt w p s < measuredRtt w a s ∧
        ∀ q, Hears a h₂ q → measuredRtt w p s ≤ measuredRtt w q s := by
  obtain ⟨out', hreset⟩ := hround.reset
  have hr : Run overlay.move w₀ (h₀ ++ (h₁ ++ [⟨u, .own a .advertise, out'⟩] ++ h₂)) w' :=
    hr₀.trans ((hround.before.snoc hreset).trans hround.after)
  have hturn : overlay.turn w' (.own a .advertise) = some (a, .advertise) := rfl
  obtain ⟨j, e, m, hturn', hstep, hw''⟩ := Parties.move_cases hend
  obtain ⟨rfl, rfl⟩ := Prod.mk.inj (Option.some.inj (hturn.symm.trans hturn'))
  obtain ⟨_, _, hm, _⟩ := Machine.step_advertise hstep
  have htable : (w''.party a).table = (w'.party a).table.fillForwardingTable.resetLearningTable := by
    have hparty : w''.party a = m := by
      rw [hw'']
      exact Function.update_self ..
    rw [hparty, hm]
  have hx := (w'.party a).table.extends_routes
  rw [htable]
  constructor
  · intro p s hp hne
    obtain ⟨hl, -⟩ := hround.learned hs hr₀ s
    cases hg : (w'.party a).table.getIndexByIp s with
    | none => exact absurd ((hl.known.mp hg).2 p hp) hne
    | some i =>
      rw [hx.getIndexByIp hg]
      rfl
  · intro i hi s hop
    have hi : i < (w'.party a).table.known := hi
    have hs' : s = ((w'.party a).table.serverInfoes i).ip.uint := congrArg IpInfo.uint (hx.ip_eq i hi)
    have hget : (w'.party a).table.getIndexByIp s = some i := by
      rw [hs']
      exact (run_tables hs hr a).1 i hi
    obtain ⟨hl, hstart⟩ := hround.learned hs hr₀ s
    have hhop : hop = ((w'.party a).table.routeOf s).hop := by
      rw [ServerTable.routeOf_of_some hget]
      exact congrArg IpInfo.uint ((w'.party a).table.row_advertise hi).1
    obtain ⟨hheld, -, hleast⟩ := hl.route
    rcases hheld with hheld | ⟨p, hp, hheld, hlt⟩
    · rw [hstart] at hheld
      rw [hheld] at hleast
      by_cases hn : (v.party a).table.getIndexByIp s = none
      · -- what makes a server known has been taken
        have hown : (w.party a).table.ownRtt s = 65535 := by
          rw [ServerTable.routeOf_of_none hn] at hstart
          exact (congrArg Slot.value hstart).symm
        have hall (p : ι) (hp : Hears a h₂ p) : (w.party p).table.ownRtt s = 65535 := by
          have hle : (w.party a).table.ownRtt s ≤ (w.party p).table.ownRtt s := UInt16.not_lt.mp (hleast p hp)
          rw [hown] at hle
          exact UInt16.le_antisymm (UInt16.not_lt.mp (not_inf_lt _)) hle
        rw [hl.known.mpr ⟨hn, hall⟩] at hget
        cases hget
      · left
        rw [hhop, hheld, if_neg hn]
        exact ⟨rfl, fun p hp => UInt16.not_lt.mp (hleast p hp)⟩
    · right
      rw [hstart] at hlt
      rw [hheld] at hleast hhop
      exact ⟨p, hp, hhop, hlt, fun q hq => UInt16.not_lt.mp (hleast q hq)⟩

end Rounds

theorem twoStarted {m₀ m₁ : Machine} (h₀ : Machine.initializeMachine (twoIface false) sampleInfo = some m₀)
    (h₁ : Machine.initializeMachine (twoIface true) sampleInfo = some m₁)
    (hp : (m₀.table.Distinct ∧ m₀.table.ipGateway.uint = 0x0A000001) ∧
      m₁.table.Distinct ∧ m₁.table.ipGateway.uint = 0x0A000001) :
    Started twoIface (fun _ => sampleInfo) ⟨fun p => if p then m₁ else m₀, []⟩ := by
  obtain ⟨⟨hd₀, hg₀⟩, hd₁, hg₁⟩ := hp
  refine ⟨fun p => ?_, rfl, by decide, by decide, fun p q => ?_, fun p => ?_⟩
  · cases p
    · exact h₀
    · exact h₁
  · have hg : (if q then m₁ else m₀).table.ipGateway.uint = 0x0A000001 := by
      cases q
      · exact hg₀
      · exact hg₁
    show (twoIface p 0).ip ≠ (if q then m₁ else m₀).table.ipGateway.uint
    rw [hg]
    revert p
    decide
  · cases p
    · exact hd₀
    · exact hd₁

/-- One node needs 30 ms to the server, and hears twice of one that needs 10. -/
theorem round_finds_best_route_by_way_of_peer : ∃ (w₀ w w'' : World Bool Machine Bytes) (h : List (OverlayMoment Bool)),
    Run overlay.move w₀ h w ∧ measuredRtt w false 0x08080808 = 30 ∧ measuredRtt w true 0x08080808 = 10 ∧
    ((w''.party false).table.serverInfoes 0).forwardingTable.ipNextHopRtt.uint = (twoIface true 0).ip := by
  have hrun : ((Machine.initializeMachine (twoIface false) sampleInfo).bind fun m₀ =>
      (Machine.initializeMachine (twoIface true) sampleInfo).bind fun m₁ =>
      (exec overlay.move ⟨fun p => if p then m₁ else m₀, []⟩
        [.own true (.ping fun _ => 0), .own true (sampleEcho 0x08080808 0 10000000), .own false (.ping fun _ => 0),
          .own false (sampleEcho 0x08080808 0 30000000)]).bind fun r₀ =>
      (exec overlay.move r₀.1 [.own true .advertise]).bind fun r₁ =>
      (overlay.move r₁.1 (.own false .advertise)).bind fun r₂ =>
      (exec overlay.move r₂.1 [.deliver false 0 0, .deliver false 0 0]).bind fun r₃ =>
      (overlay.move r₃.1 (.own false .advertise)).map fun r₄ => decide
        (((m₀.table.Distinct ∧ m₀.table.ipGateway.uint = 0x0A000001) ∧
            m₁.table.Distinct ∧ m₁.table.ipGateway.uint = 0x0A000001) ∧
          Quiet (r₁.2 ++ r₃.2) ∧ (∀ x ∈ r₃.2, ∀ k ∈ x.event.deliveredTo false, r₀.1.pool.length ≤ k) ∧
          measuredRtt r₀.1 false 0x08080808 = 30 ∧ measuredRtt r₀.1 true 0x08080808 = 10 ∧
          0 < (r₄.1.party false).table.known ∧ ((r₄.1.party false).table.serverInfoes 0).ip.uint = 0x08080808 ∧
          ∃ x ∈ r₃.2, ∃ message ∈ x.before.pool[0]?, message.1 = true ∧ isValidPacket message.2 = some true)) = some true := by
    decide +kernel
  obtain ⟨m₀, hi₀, hrun⟩ := Option.bind_eq_some_iff.mp hrun
  obtain ⟨m₁, hi₁, hrun⟩ := Option.bind_eq_some_iff.mp hrun
  obtain ⟨⟨w, h⟩, hw, hrun⟩ := Option.bind_eq_some_iff.mp hrun
  obtain ⟨⟨u, h₁⟩, hu, hrun⟩ := Option.bind_eq_some_iff.mp hrun
  obtain ⟨⟨v, out⟩, hv, hrun⟩ := Option.bind_eq_some_iff.mp hrun
  obtain ⟨⟨w', h₂⟩, hw', hrun⟩ := Option.bind_eq_some_iff.mp hrun
  obtain ⟨⟨w'', out'⟩, hend, hrun⟩ := Option.map_eq_some_iff.mp hrun
  obtain ⟨htwo, hquiet, hfresh, h30, h10, hk, hip, x, hx, ⟨p, frame⟩, hm, hp, hvalid⟩ := of_decide_eq_true hrun
  have hevents : ∀ y ∈ h₂, y.event = .deliver false 0 0 := by
    intro y hy
    have hmem : y.event ∈ h₂.map (·.event) := List.mem_map_of_mem hy
    rw [exec_events hw'] at hmem
    simpa using hmem
  have hround : Round false w u v w' h₁ h₂ := by
    refine ⟨run_of_exec hu, ⟨out, hv⟩, run_of_exec hw', hquiet, fun y hy he => ?_, hfresh⟩
    rw [hevents y hy] at he
    cases he
  have hears : Hears false h₂ true := by
    obtain rfl : p = true := hp
    exact ⟨x, hx, frame, 0, 0, hevents x hx, hm, hvalid⟩
  have h30 : measuredRtt w false 0x08080808 = 30 := h30
  have h10 : measuredRtt w true 0x08080808 = 10 := h10
  have hip : ((w''.party false).table.serverInfoes 0).ip.uint = 0x08080808 := hip
  refine ⟨_, w, w'', h, run_of_exec hw, h30, h10, ?_⟩
  rcases (round_finds_best_routes (twoStarted hi₀ hi₁ htwo) (run_of_exec hw) hround hend).2 0 hk with
    ⟨-, hleast⟩ | ⟨q, -, hhop, hlt, -⟩
  · have hle := hleast true hears
    rw [hip, h30, h10] at hle
    exact absurd hle (by decide)
  · cases q
    · exact absurd hlt (UInt16.lt_irrefl _)
    · exact hhop

end Overlay
