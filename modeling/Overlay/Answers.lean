import Overlay.Relays

/-! The way there and back of a packet that leaves by way of a peer, from its sender on: what
the peer makes of it, what it makes of the reply of the server, and what the sender reports. -/

namespace Overlay

open ByteMemory Execution Interleaving

section Answers

variable {ι : Type*} [DecidableEq ι] {iface : ι → Fin 2 → Interface} {info : ι → Str}
  {w₀ w : World ι Machine Bytes} {a q : ι} {h : List (LinkMoment ι)} {request : Bytes} {sendTime : Int}

/-- The node `q` has taken an advertisement of `a`. -/
def Heard (h : List (LinkMoment ι)) (q a : ι) : Prop := ∃ x ∈ h, ∃ k now frame, x.event = .deliver q k now ∧
  x.before.pool[k]? = some (a, frame) ∧ isValidPacket frame = some true ∧ ipP frame = 17 ∧ portDst frame = 5000

/-- A packet of `a`, sent in `y`, that the link hands to `q` in `z`, and that `q` accepts. -/
structure Asked (y z : LinkMoment ι) (a q : ι) (sendTime : Int) (request : Bytes) : Prop where
  sends : ∃ ipDst, y.event = .own a (.dsa ipDst sendTime) ∨ y.event = .own a (.lsa ipDst sendTime)
  request_eq : y.output = [⟨0, request⟩]
  arrives : ∃ k now, z.event = .deliver q k now ∧ z.before.pool[k]? = some (a, request)
  accepted : isValidPacket request = some true

/-- A port on which `q` can be answered and that means nothing to it so far: no peer is behind it,
and no packet in `h` left under it. -/
structure Fresh (h : List (LinkMoment ι)) (q : ι) (m : Machine) (port : UInt16) : Prop where
  service_le : 8000 ≤ port
  unmapped : m.portToIp port = none
  unused : ∀ x ∈ h, ∀ e, link.turn x.before x.event = some (q, e) → (x.before.party q).allocates e = true →
    ∀ sent ∈ x.output, portSrc sent.frame ≠ port

omit [DecidableEq ι] in
theorem turn_own {e e' : Event} {j : ι} (ht : link.turn w (.own a e) = some (j, e')) : j = a ∧ e' = e := by
  rcases link_turn ht with ⟨hev, _⟩ | ⟨_, _, _, _, hev, _⟩
  · obtain ⟨rfl, rfl⟩ := Move.own.inj hev
    exact ⟨rfl, rfl⟩
  · cases hev

/-- A packet of a node's own on the link. -/
theorem LinkRun.sends {h₁ h₂ : List (LinkMoment ι)} {y : LinkMoment ι} (hr : LinkRun iface info w₀ (h₁ ++ y :: h₂) w)
    {e : Event} {ipDst : Str} (he : e = .dsa ipDst sendTime ∨ e = .lsa ipDst sendTime) (hy : y.event = .own a e)
    (ho : y.output = [⟨0, request⟩]) : (y.before.party a).allocates e = true ∧
      portSrc request = (y.before.party a).nextPort ∧ ipSrc request = (iface a 0).ip ∧
      (portDst request = 1000 ∨ portDst request = 2000) ∧ ipP request = 17 ∧
      ∃ t, (y.before.party a).step e = some (t, [⟨0, request⟩]) ∧ KeepsPorts t (w.party a) := by
  have hw := hr.before.sound
  obtain ⟨t, _, hmove, hr₂⟩ := hr.run.split_at
  obtain ⟨j, e', hturn, hstep, _, _⟩ := link_cases hmove
  rw [hy] at hturn
  obtain ⟨rfl, rfl⟩ := turn_own hturn
  rw [ho] at hstep
  have hsend := linkSend_of_step hstep (List.mem_singleton.mpr rfl) rfl
  cases hsend with
  | advertise _ _ hadv => rcases he with he | he <;> cases he.symm.trans hadv
  | reply _ _ _ _ hframe => rcases he with he | he <;> cases he.symm.trans hframe
  | own ipDst' now nextHop isDsa mac he' hv hg _ hdata =>
    have hdata : request = _ := hdata
    obtain ⟨hd, hs⟩ := udpPacket_fields (y.before.party j) (ipIntoUint ipDst') isDsa ((y.before.party j).iface 0).mac mac hg
    refine ⟨?_, ?_, ?_, ?_, ?_, t.party j, hstep, run_keeps hr₂ j⟩
    · cases isDsa <;> rw [he'] <;> exact hv
    · rw [hdata, Machine.portSrc_udpPacket]
    · rw [hdata, hs, hw.iface_eq]
    · rw [hdata, hd]
      cases isDsa <;> simp
    · rw [hdata]
      rfl

omit [DecidableEq ι] in
theorem Carried.advertised {p : ι} {frame : Bytes} (h : Carried iface w p frame) (hport : portDst frame = 5000) :
    ipSrc frame = (iface p 0).ip := by
  cases h with
  | advertisement _ hsrc _ => exact hsrc
  | request hd _ _ =>
    rw [hport] at hd
    exact absurd hd (by decide)
  | reply b ho _ => exact absurd hport (service_ports ho.service_le).2.2

/-- A node knows the MAC address of a peer if and only if it has heard of it. -/
theorem LinkRun.heard_iff (hr : LinkRun iface info w₀ h w) :
    (∃ mac, (w.party q).ipToMac (iface a 0).ip = some mac) ↔ Heard h q a := by
  rw [run_ipToMac (hr.linked.node q) (Parties.run_party hr.run q), storedMac_isSome]
  constructor
  · rintro ⟨x', hx', mac, hadv⟩
    obtain ⟨h₁, h₂, hh⟩ := List.append_of_mem hx'
    obtain ⟨g₁, x, g₂, rfl, _, _, hturn, _⟩ := Parties.history_split hh
    cases he : x'.event with
    | frame data now =>
      rw [he] at hadv hturn
      obtain ⟨k, p, hev, hk⟩ := exists_delivered hturn (Or.inl (by simp [hadv]))
      simp only [Event.advertiser, Option.ite_none_right_eq_some, Option.some.injEq, Prod.mk.injEq] at hadv
      obtain ⟨⟨hv, hp, hport⟩, hip, -⟩ := hadv
      have hsrc := (hr.before.sound.carried _ (List.mem_of_getElem? hk)).advertised hport
      obtain rfl := hr.linked.address_inj p a (hsrc.symm.trans hip)
      exact ⟨x, by simp, k, now, data, hev, hk, hv, hp, hport⟩
    | _ => rw [he] at hadv; cases hadv
  · rintro ⟨x, hx, k, now, data, hev, hk, hv, hp, hport⟩
    obtain ⟨h₁, h₂, rfl⟩ := List.append_of_mem hx
    have hsrc := (hr.before.sound.carried _ (List.mem_of_getElem? hk)).advertised hport
    have hturn : link.turn x.before x.event = some (q, .frame data now) := by
      rw [hev]
      simp [Parties.turn, hk, link]
    refine ⟨_, Parties.mem_history hx hturn, etherShost data, ?_⟩
    simp [Event.advertiser, hv, hp, hport, hsrc]

/-- The counter of `q` has left behind every port it has used. -/
theorem LinkRun.portSrc_lt {x : LinkMoment ι} {e : Event} {sent : Sent} (hr : LinkRun iface info w₀ h w) (hx : x ∈ h)
    (ht : link.turn x.before x.event = some (q, e)) (ha : (x.before.party q).allocates e = true)
    (hs : sent ∈ x.output) : (portSrc sent.frame).toNat < (w.party q).srcPort := by
  obtain ⟨h₁, h₂, rfl⟩ := List.append_of_mem hx
  obtain ⟨t, _, hmove, hr₂⟩ := hr.run.split_at
  obtain ⟨j, e', hturn, hstep, _, _⟩ := link_cases hmove
  obtain ⟨rfl, rfl⟩ := Prod.mk.inj (Option.some.inj (ht.symm.trans hturn))
  have hports := Machine.step_ports hstep
  have hsucc : (t.party q).srcPort = (x.before.party q).srcPort + 1 := by rw [hports.srcPort_eq, ha, if_pos rfl]
  have hle := (run_keeps hr₂ q).srcPort_le
  have hfit := hle.trans (hr.fits q)
  have hlt : (x.before.party q).srcPort < 65536 := by omega
  obtain ⟨only, ho, -⟩ := hports.fresh ha (hr.before.sound.ports q) hlt
  rw [ho] at hports hs
  obtain rfl := List.mem_singleton.mp hs
  rw [hports.portSrc_eq ha, Machine.toNat_nextPort hlt]
  omega

/-- The peer sends the packet on under a fresh port of its own and keeps whose it was. -/
theorem LinkRun.relays {h₁ h₂ : List (LinkMoment ι)} {z : LinkMoment ι} (hr : LinkRun iface info w₀ (h₁ ++ z :: h₂) w)
    {k : Nat} {now : Int} (hz : z.event = .deliver q k now) (hk : z.before.pool[k]? = some (a, request))
    (hu : ValidUdp request) (hd : portDst request = 1000 ∨ portDst request = 2000) :
    ∃ forwarded, z.output = [⟨1, forwarded⟩] ∧ Fresh h₁ q (z.before.party q) (portSrc forwarded) ∧
      (portSrc forwarded).toNat < (w.party q).srcPort ∧
      (w.party q).portToIp (portSrc forwarded) = some (word32 request 26) ∧
      (w.party q).myPortToSrcPort (portSrc forwarded) = word16 request 34 := by
  obtain ⟨t, _, hmove, hr₂⟩ := hr.run.split_at
  obtain ⟨j, e, hturn, hstep, _, _⟩ := link_cases hmove
  have hturn' : link.turn z.before z.event = some (q, .frame request now) := by
    rw [hz]
    simp [Parties.turn, hk, link]
  obtain ⟨rfl, rfl⟩ := Prod.mk.inj (Option.some.inj (hturn'.symm.trans hturn))
  obtain ⟨m', forwarded, hf, _⟩ := processFrame_request (z.before.party q) now hu hd
  obtain ⟨_, ho⟩ := Prod.mk.inj (Option.some.inj (hstep.symm.trans hf))
  have hal : (z.before.party q).allocates (.frame request now) = true := Machine.allocates_frame.mpr ⟨hu, hd⟩
  have hports := Machine.step_ports hstep
  have hkeep := run_keeps hr₂ q
  have hle := (hr.before.sound.ports q).service_le
  have hsucc : (t.party q).srcPort = (z.before.party q).srcPort + 1 := by rw [hports.srcPort_eq, hal, if_pos rfl]
  have hfit := hkeep.srcPort_le.trans (hr.fits q)
  have hport := Machine.toNat_nextPort (m := z.before.party q) (by omega)
  obtain ⟨hmapped, hmy⟩ := hports.mapped hal
  rw [ho] at hports
  have hsrc : portSrc forwarded = (z.before.party q).nextPort := hports.portSrc_eq hal
  have hbelow := hkeep.srcPort_le
  refine ⟨forwarded, ho, ⟨?_, ?_, fun x hx e ht ha sent hs heq => ?_⟩, ?_, ?_, ?_⟩
  · rw [hsrc, UInt16.le_iff_toNat_le, hport]
    exact hle
  · rw [hsrc]
    exact (hr.before.sound.ports q).unmapped (by omega)
  · have hlt := hr.before.portSrc_lt hx ht ha hs
    rw [heq, hsrc, hport] at hlt
    exact Nat.lt_irrefl _ hlt
  · rw [hsrc, hport]
    omega
  · rw [hsrc, hkeep.portToIp_eq (hr.fits q) _ (by omega), hmapped]
  · rw [hsrc, hkeep.myPortToSrcPort_eq (hr.fits q) _ (by omega), hmy]

theorem mac_of_answer {m m' : Machine} {reply : Bytes} {now : Int} {out : List Sent} {address : UInt32} (hu : ValidUdp reply)
    (hle : 8000 ≤ portDst reply) (hlt : (portDst reply).toNat < m.srcPort) (hk : m.portToIp (portDst reply) = some address)
    (h : m.step (.frame reply now) = some (m', out)) : ∃ mac, m.ipToMac (swap32 address) = some mac := by
  obtain ⟨h₁, h₂, h₃⟩ := service_ports hle
  cases Machine.processFrame_cases h with
  | rejected hv => cases hv.symm.trans ((isValidPacket_iff reply).mpr (Or.inl hu))
  | echo hv _ =>
    have hp := hu.ipP_eq
    rw [hv.ipP_eq] at hp
    exact absurd hp (by decide)
  | advertisement _ hd _ => exact absurd hd h₃
  | forward _ hd _ => exact absurd hd (not_or.mpr ⟨h₁, h₂⟩)
  | reply _ _ _ hk' hreply =>
    obtain ⟨_, mac, _, hmac, _⟩ := Machine.natReply_cases hreply
    obtain rfl := Option.some.inj (hk.symm.trans hk')
    exact ⟨mac, hmac⟩
  | ignored _ _ _ _ hnone => cases hk.symm.trans (hnone hle hlt)

/-- What becomes of the reply at the peer: it goes back over the link, if and only if the peer
has heard of the one who asked, and to that node. -/
theorem LinkRun.answers (hr : LinkRun iface info w₀ h w) {reply : Bytes} (hu : ValidUdp reply)
    (hle : 8000 ≤ portDst reply) (hlt : (portDst reply).toNat < (w.party q).srcPort)
    (hk : (w.party q).portToIp (portDst reply) = some (word32 request 26))
    (hmy : (w.party q).myPortToSrcPort (portDst reply) = word16 request 34) (hsrc : ipSrc request = (iface a 0).ip)
    (now : Int) : ((link.move w (.own q (.frame reply now))).isSome ↔ Heard h q a) ∧
      ∀ w' out, link.move w (.own q (.frame reply now)) = some (w', out) → ∃ data, out = [⟨0, data⟩] ∧
        w'.pool = w.pool ++ [(q, data)] ∧ ReplyTo request reply data (iface a 0).mac ∧ ipP data = 17 := by
  have hwhole := hr.sound
  obtain ⟨h₁, h₂, h₃⟩ := service_ports hle
  have hadv : (Event.frame reply now).advertiser = none := if_neg fun hadv => h₃ hadv.2.2
  have hreq : (Event.frame reply now).requester = none := if_neg fun hreq => hreq.2.2.elim h₁ h₂
  have hturn : link.turn w (.own q (.frame reply now)) = some (q, .frame reply now) := by
    simp [Parties.turn, link, hadv, hreq]
  have haddress : swap32 (word32 request 26) = (iface a 0).ip := hsrc
  rw [← hr.heard_iff]
  have hmove (w' : World ι Machine Bytes) (out : List Sent) (he : link.move w (.own q (.frame reply now)) = some (w', out)) :
      ∃ mac data, (w.party q).ipToMac (iface a 0).ip = some mac ∧ out = [⟨0, data⟩] ∧ w'.pool = w.pool ++ [(q, data)] ∧
        Rewritten reply data ((w.party q).iface 0).mac mac 36 (word16 request 34) 30 (word32 request 26) := by
    obtain ⟨j, e, hturn', hstep, _, hpool⟩ := link_cases he
    obtain ⟨rfl, rfl⟩ := Prod.mk.inj (Option.some.inj (hturn.symm.trans hturn'))
    obtain ⟨mac, hmac⟩ := mac_of_answer hu hle hlt hk hstep
    obtain ⟨data, hf, hrw⟩ := processFrame_mapped now hu rfl hle hlt hk hmac
    obtain ⟨_, rfl⟩ := Prod.mk.inj (Option.some.inj (hstep.symm.trans hf))
    rw [haddress] at hmac
    exact ⟨mac, data, hmac, rfl, hpool, hmy ▸ hrw⟩
  refine ⟨⟨fun hsome => ?_, fun hknown => ?_⟩, fun w' out he => ?_⟩
  · obtain ⟨⟨w', out⟩, he⟩ := Option.isSome_iff_exists.mp hsome
    obtain ⟨mac, _, hmac, _⟩ := hmove w' out he
    exact ⟨mac, hmac⟩
  · obtain ⟨mac, hmac⟩ := hknown
    rw [← haddress] at hmac
    obtain ⟨data, hf, _⟩ := processFrame_mapped now hu rfl hle hlt hk hmac
    have hstep : link.step (w.party q) (.frame reply now) = some (w.party q, [⟨0, data⟩]) := hf
    simp [Parties.move, hturn, hstep]
  · obtain ⟨mac, data, hmac, ho, hpool, hrw⟩ := hmove w' out he
    obtain ⟨b, hb, hmacb⟩ := hwhole.stored q _ _ hmac
    obtain rfl := hr.linked.address_inj a b hb
    refine ⟨data, ho, hpool, hmacb ▸ hrw.replyTo, ?_⟩
    have hproto : word8 data 23 = word8 reply 23 := hrw.word8_eq 23 (by decide) (by decide) (by decide) (by decide)
    show word8 data 23 = 17
    rw [hproto]
    exact hu.ipP_eq

/-- The whole way. A packet that a peer accepts leaves towards the gateway under a fresh port;
whenever the reply to that port comes and whatever has happened since, the peer hands it on, unless
it has not heard of the sender, which stops it; and if the sender gets what is handed on, it reports
its own port and the time since it sent the packet. -/
theorem answer_comes_home {h₁ h₂ h₃ : List (LinkMoment ι)} {y z : LinkMoment ι}
    (hr : LinkRun iface info w₀ (h₁ ++ y :: (h₂ ++ z :: h₃)) w) (hasked : Asked y z a q sendTime request) :
    ∃ forwarded, z.output = [⟨1, forwarded⟩] ∧ Fresh (h₁ ++ y :: h₂) q (z.before.party q) (portSrc forwarded) ∧
      ∀ reply replyTime, isValidPacket reply = some true → ipP reply = 17 → portDst reply = portSrc forwarded →
        ((link.move w (.own q (.frame reply replyTime))).isSome ↔ Heard (h₁ ++ y :: (h₂ ++ z :: h₃)) q a) ∧
        ∀ w' out, link.move w (.own q (.frame reply replyTime)) = some (w', out) → ∃ data, out = [⟨0, data⟩] ∧
          w'.pool = w.pool ++ [(q, data)] ∧ ReplyTo request reply data (iface a 0).mac ∧
          ∀ h₄ w'', LinkRun iface info w₀
              (h₁ ++ y :: (h₂ ++ z :: h₃ ++ ⟨w, .own q (.frame reply replyTime), out⟩ :: h₄)) w'' →
            isValidPacket data = some true → ∀ now, (w''.party a).printed data now =
              (Machine.kindOf (portSrc reply)).map
                (.replyReceived · (portSrc request) (milliseconds (now - sendTime))) := by
  obtain ⟨⟨ipDst, hsends⟩, hrequest, ⟨k, forwardTime, hz, hk⟩, haccepted⟩ := hasked
  obtain ⟨e, he, hy⟩ : ∃ e, (e = .dsa ipDst sendTime ∨ e = .lsa ipDst sendTime) ∧ y.event = .own a e := by
    rcases hsends with hy | hy
    · exact ⟨_, Or.inl rfl, hy⟩
    · exact ⟨_, Or.inr rfl, hy⟩
  obtain ⟨hal, hport, hsrc, hd, hp, -⟩ := hr.sends he hy hrequest
  have hassoc : h₁ ++ y :: (h₂ ++ z :: h₃) = (h₁ ++ y :: h₂) ++ z :: h₃ := by simp
  obtain ⟨forwarded, ho, hfresh, hlt, hmapped, hmy⟩ :=
    (hassoc ▸ hr).relays hz hk (validUdp_of_accepted haccepted hp) hd
  refine ⟨forwarded, ho, hfresh, fun reply replyTime hv hpr hdst => ?_⟩
  have hle := hfresh.service_le
  rw [← hdst] at hle hlt hmapped hmy
  obtain ⟨hiff, hout⟩ := hr.answers (validUdp_of_accepted hv hpr) hle hlt hmapped hmy hsrc replyTime
  refine ⟨hiff, fun w' out hmove => ?_⟩
  obtain ⟨data, hdata, hpool, hreply, hpd⟩ := hout w' out hmove
  refine ⟨data, hdata, hpool, hreply, fun h₄ w'' hr'' hvd now => ?_⟩
  obtain ⟨-, -, -, -, -, t, hstep, hkeep⟩ := hr''.sends he hy hrequest
  have hown : OwnPort (w''.party a) (portDst data) := by
    rw [hreply.portDst_eq, hport]
    have hfit := hr''.fits a
    refine OwnPort.kept ?_ hkeep hfit
    refine LinkSend.ownPort hstep (hr''.before.sound.ports a) (hkeep.srcPort_le.trans hfit) hal fun data now hf => ?_
    rcases he with he | he <;> cases he.symm.trans hf
  have htime := hr''.sentTimes_eq he hy hrequest hal
  rw [printed_received hvd hpd hown, hreply.portSrc_eq, hreply.portDst_eq, hport, htime]

end Answers

/-- The reply of the server for the port 8000 of the peer. -/
def gatewayReply : Bytes := sampleUdp 0x08080808 0x0A000003 1000 8000

theorem answer_comes_home_by_way_of_peer : ∃ w₀ h₁ y z w, LinkRun twoIface (fun _ => sampleInfo) w₀ (h₁ ++ [y, z]) w ∧
    (∃ forwarded, z.output = [⟨1, forwarded⟩] ∧ Fresh (h₁ ++ [y]) true (z.before.party true) (portSrc forwarded)) ∧
    Heard (h₁ ++ [y, z]) true false ∧
    ∃ w' request data, link.move w (.own true (.frame gatewayReply 3000000)) = some (w', [⟨0, data⟩]) ∧
      ReplyTo request gatewayReply data (twoIface false 0).mac ∧
      (w'.party false).printed data 5000000 = some (.replyReceived true 8000 4) := by
  have hreply : isValidPacket gatewayReply = some true ∧ ipP gatewayReply = 17 ∧ portDst gatewayReply = 8000 := by
    decide +kernel
  obtain ⟨w₀, h, w', hr, hmoves, y, hy, z, hz, r, hrl, ⟨hone, ⟨i, request⟩, hout, h₀, hk, hrequest, hsrc⟩,
      forwarded, hforwarded, hfsrc, answer, hanswer, hvalid⟩ :=
    exists_linkRun twoMoves (fun _ h =>
      ∃ y ∈ (h.drop 6).head?, ∃ z ∈ (h.drop 7).head?, ∃ r ∈ h.getLast?,
        (y.output.length = 1 ∧ ∃ sent ∈ y.output.head?, sent.iface = 0 ∧ z.before.pool[2]? = some (false, sent.frame) ∧
          isValidPacket sent.frame = some true ∧ portSrc sent.frame = 8000) ∧
        ∃ forwarded ∈ z.output.head?, portSrc forwarded.frame = 8000 ∧
          ∃ answer ∈ r.output.head?, isValidPacket answer.frame = some true) (by decide +kernel)
  obtain ⟨h₁, l, rfl, hfirst, hlast⟩ :=
    List.map_eq_append_iff.mp (hmoves.trans (List.take_append_drop 6 twoMoves).symm)
  obtain ⟨y', l, rfl, hyev, hl⟩ := List.map_eq_cons_iff.mp hlast
  obtain ⟨z', l, rfl, hzev, hl⟩ := List.map_eq_cons_iff.mp hl
  obtain ⟨r', rfl, hrev⟩ := List.map_eq_singleton_iff.mp hl
  have hrev : r'.event = .own true (.frame gatewayReply 3000000) := hrev
  have hlen : h₁.length = 6 := by
    rw [← List.length_map (f := Taken.event), hfirst]
    rfl
  obtain rfl : y' = y := by simpa [List.drop_left' hlen] using hy
  obtain rfl : z' = z := by simpa [List.drop_append, hlen] using hz
  obtain rfl : r' = r := by simpa using hrl
  obtain rfl : i = 0 := h₀
  have hsent : y'.output = [⟨0, request⟩] := by
    obtain ⟨sent, hs⟩ := List.length_eq_one_iff.mp hone
    rw [hs] at hout ⊢
    rw [Option.some.inj hout]
  have hr' : LinkRun twoIface (fun _ => sampleInfo) w₀ (h₁ ++ [y', z'] ++ r' :: []) w' := by simpa using hr
  obtain ⟨forwarded', ho, hfresh, hback⟩ := @answer_comes_home _ _ _ _ _ _ _ _ _ _ h₁ [] [] y' z' hr'.before
    ⟨⟨_, Or.inl hyev⟩, hsent, ⟨2, 2000000, hzev, hk⟩, hrequest⟩
  rw [ho] at hforwarded
  obtain rfl : (⟨1, forwarded'⟩ : Sent) = forwarded := Option.some.inj hforwarded
  obtain ⟨hiff, hmove⟩ := hback _ 3000000 hreply.1 hreply.2.1 (hreply.2.2.trans hfsrc.symm)
  obtain ⟨_, _, he, hend⟩ := hr'.run.split_at
  obtain rfl := hend.of_nil
  have he' : link.move r'.before (.own true (.frame gatewayReply 3000000)) = some (w', r'.output) := hrev ▸ he
  obtain ⟨data, hdata, -, hto, hprinted⟩ := hmove w' r'.output he'
  rw [hdata] at hanswer he'
  obtain rfl : (⟨0, data⟩ : Sent) = answer := Option.some.inj hanswer
  have hwhole : LinkRun twoIface (fun _ => sampleInfo) w₀ (h₁ ++ y' :: ([] ++ z' :: [] ++
      ⟨r'.before, .own true (.frame gatewayReply 3000000), r'.output⟩ :: [])) w' := by
    rw [← hrev]
    simpa using hr
  have hshown := hprinted [] w' hwhole hvalid 5000000
  rw [hsrc] at hshown
  exact ⟨w₀, h₁, y', z', r'.before, hr'.before, ⟨forwarded', ho, hfresh⟩,
    hiff.mp (Option.isSome_iff_exists.mpr ⟨_, he'⟩), w', request, data, he', hto, hshown⟩

end Overlay
