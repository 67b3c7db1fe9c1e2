import Reflector.Proofs.Interface.Answers
/-!
What each layer makes of a packet: whether it takes it, and what becomes of it then. Any other is
given back as it is.
-/
namespace Reflector

variable {σ τ : Type} {A B : Bytes → Prop} {n len : Nat} {bytes : Bytes} {s : σ}

/-- What a layer makes of a buffer of length `n`: as many bytes, of which the answer is the first
part, and has `A`. -/
structure Handled.Fits (h : Handled σ) (n : Nat) (A : Bytes → Prop) : Prop where
  length : h.bytes.length = n
  answer : ∀ len, h.outcome = .reflect len → len ≤ n ∧ A (h.bytes.take len)

def Handled.answer (h : Handled σ) : Option Bytes :=
  match h.outcome with
  | .drop => none
  | .reflect len => some (h.bytes.take len)

/-- What the layer above made of the part of a packet behind the header. The header of an answer
depends on its length. -/
def Handled.under (packet : Bytes) (headerLen : Nat) (header : Nat → Bytes) (up : Handled σ) :
    Handled σ :=
  match up.outcome with
  | .drop => ⟨.drop, packet.take headerLen ++ up.bytes, up.state⟩
  | .reflect len => ⟨.reflect (headerLen + len), header len ++ up.bytes, up.state⟩

namespace Handled

def map (f : σ → τ) (h : Handled σ) : Handled τ := ⟨h.outcome, h.bytes, f h.state⟩

variable {packet : Bytes} {k : Nat} {header : Nat → Bytes} {up : Handled σ}

@[simp] theorem under_state : (up.under packet k header).state = up.state := by
  unfold under
  split
  · rfl
  · rfl

theorem under_map (f : σ → τ) :
    (up.map f).under packet k header = (up.under packet k header).map f := by
  unfold under map
  dsimp only
  split
  · rfl
  · rfl

theorem under_dropped (t : σ) :
    (dropped (packet.drop k) t).under packet k header = dropped packet t := by
  rw [dropped, under, List.take_append_drop]
  rfl

theorem under_outcome {n : Nat} : (up.under packet k header).outcome = .reflect n ↔
    ∃ len, up.outcome = .reflect len ∧ n = k + len := by
  cases he : up.outcome with
  | drop => simp [under, he]
  | reflect len => simp [under, he, eq_comm]

end Handled

namespace Handled.Fits

theorem dropped (h : bytes.length = n) : (Handled.dropped bytes s).Fits n A :=
  ⟨h, fun _ he => nomatch he⟩

theorem reflect (h : bytes.length = n) (hlen : len ≤ n) (ha : A (bytes.take len)) :
    (⟨.reflect len, bytes, s⟩ : Handled σ).Fits n A := by
  refine ⟨h, fun len he => ?_⟩
  cases he
  exact ⟨hlen, ha⟩

theorem mono {h : Handled σ} (hf : h.Fits n A) (hab : ∀ a, A a → B a) : h.Fits n B :=
  ⟨hf.length, fun len he => (hf.answer len he).imp_right (hab _)⟩

theorem length_kept {b : Bytes} {k : Nat} {up : Handled σ}
    (hf : up.Fits (b.drop k).length A) : (b.take k ++ up.bytes).length = b.length := by
  rw [List.length_append, hf.length, ← List.length_append, List.take_append_drop]

/-- A new header stands in front of what the layer above left. -/
theorem under {b header : Bytes} {k : Nat} {up : Handled σ} {t : τ}
    (hf : up.Fits (b.drop k).length A)
    (hheader : header.length = k) (hk : k ≤ b.length) (he : up.outcome = .reflect len)
    (hb : ∀ a, A a → a.length = len → B (header ++ a)) :
    (⟨.reflect (k + len), header ++ up.bytes, t⟩ : Handled τ).Fits b.length B := by
  subst hheader
  obtain ⟨hlen, ha⟩ := hf.answer len he
  have hbytes := hf.length
  rw [List.length_drop] at hlen hbytes
  refine reflect ?_ ?_ ?_
  · rw [List.length_append, hbytes, Nat.add_sub_cancel' hk]
  · omega
  · rw [List.take_length_add_append]
    refine hb _ ha (List.length_take_of_le ?_)
    omega

theorem headed {b : Bytes} {k : Nat} {header : Nat → Bytes} {up : Handled σ}
    (hf : up.Fits (b.drop k).length A) (hk : k ≤ b.length)
    (hheader : ∀ len, (header len).length = k) (hb : ∀ a, A a → B (header a.length ++ a)) :
    (up.under b k header).Fits b.length B := by
  unfold Handled.under
  split
  · exact dropped hf.length_kept
  · next len he => exact hf.under (hheader len) hk he fun a ha hlen => hlen ▸ hb a ha

/-- An answer within the packet has a length below the limit of all lengths. -/
theorem short {b : Bytes} {k : Nat} {up : Handled σ} (hf : up.Fits (b.drop k).length A)
    (hk : k ≤ b.length) (h : b.length < Length.limit) (he : up.outcome = .reflect len) :
    k + len < Length.limit := by
  have hin := (hf.answer len he).1
  rw [List.length_drop] at hin
  omega

theorem extend {outcome : Outcome} {t : τ} (hf : (⟨outcome, bytes, t⟩ : Handled τ).Fits n A)
    (rest : Bytes) : (⟨outcome, bytes ++ rest, s⟩ : Handled σ).Fits (n + rest.length) A := by
  have hbytes : bytes.length = n := hf.length
  refine ⟨by rw [List.length_append, hbytes], fun len he => ?_⟩
  obtain ⟨hlen, ha⟩ := hf.answer len he
  rw [List.take_append_of_le_length (hbytes ▸ hlen)]
  exact ⟨Nat.le_trans hlen (Nat.le_add_right _ _), ha⟩

end Handled.Fits

theorem Outcome.withHeader_of_lt {headerLen : Nat} (h : headerLen + len < Length.limit) :
    (Outcome.reflect len).withHeader headerLen = .ok (.reflect (headerLen + len)) := by
  rw [withHeader, Length.add_of_lt h]
  rfl

namespace Ethernet.Station

structure Takes (st : Station) (header : Header) (frame : Bytes) : Prop where
  long : minFrameLen ≤ frame.length
  heads : header.Heads frame
  accepted : st.accepts header.destination = true
  known : ∀ code, header.etherType ≠ .unknown code

variable {st : Station} {upper : Upper EtherType σ} {header : Header} {frame : Bytes}
  {up : Handled σ}

theorem receive_untaken (h : ∀ header, ¬st.Takes header frame) :
    st.receive upper frame s = .ok (.dropped frame s) := by
  apply Succeeds.eq
  unfold receive
  split
  · exact Succeeds.pure rfl
  next hlong =>
    refine (Header.parse_total frame).dispatch (fun _ => Succeeds.pure rfl) fun header hheads => ?_
    dsimp only
    split
    · exact Succeeds.pure rfl
    next haccepted =>
      cases htype : header.etherType with
      | unknown code => exact Succeeds.pure rfl
      | ipv4 | arp =>
        refine absurd ⟨Nat.not_lt.1 hlong, hheads, by simpa using haccepted, fun _ => ?_⟩ (h header)
        rw [htype]
        exact EtherType.noConfusion

theorem deliver_eq (st : Station) (h : frame.length < Length.limit)
    (hheader : header.Heads frame) (hfits : up.Fits (frame.drop Frame.headerLen).length A)
    (hup : upper header.etherType (frame.drop Frame.headerLen) s = .ok up) :
    st.deliver upper header frame s =
      .ok (up.under frame Frame.headerLen fun _ => (st.back header).bytes) := by
  have hlen := hheader.length
  apply Succeeds.eq
  apply Succeeds.read (Bytes.rest_of_le hlen)
  apply Succeeds.read hup
  obtain ⟨outcome, bytes, t⟩ := up
  cases outcome with
  | drop => exact Succeeds.pure rfl
  | reflect len =>
    apply Succeeds.read (Outcome.withHeader_of_lt (hfits.short hlen h rfl))
    apply Succeeds.read ((st.back header).emit_appends.replaces (List.length_take_of_le hlen))
    exact Succeeds.pure rfl

theorem receive_taken (ht : st.Takes header frame) (h : frame.length < Length.limit)
    (hfits : up.Fits (frame.drop Frame.headerLen).length A)
    (hup : upper header.etherType (frame.drop Frame.headerLen) s = .ok up) :
    st.receive upper frame s =
      .ok (up.under frame Frame.headerLen fun _ => (st.back header).bytes) := by
  apply Succeeds.eq
  unfold receive
  rw [if_neg (Nat.not_lt.2 ht.long)]
  apply Succeeds.read ht.heads.reads
  dsimp only
  rw [if_neg (by rw [ht.accepted]; decide)]
  have hdeliver := st.deliver_eq h ht.heads hfits hup
  cases htype : header.etherType with
  | unknown code => exact absurd htype (ht.known code)
  | ipv4 | arp => exact ⟨_, hdeliver, rfl⟩

end Ethernet.Station

namespace Ipv4.Host

structure Takes (host : Host) (header : Header) (packet : Bytes) : Prop where
  heads : header.Heads packet
  passes : host.checksum.Passes (Packet.verifyChecksum packet)
  accepted : host.subnet.accepts header.destination = true
  unicast : header.source.isUnicast = true
  known : header.protocol = .icmp ∨ header.protocol = .udp

variable {host : Host} {upper : Upper Header σ} {header : Header} {packet : Bytes}
  {up : Handled σ}

theorem receive_untaken (h : ∀ header, ¬host.Takes header packet) :
    host.receive upper packet s = .ok (.dropped packet s) := by
  apply Succeeds.eq
  refine (Header.parse_total host.checksum packet).dispatch (fun _ => Succeeds.pure rfl)
    fun header ⟨hheads, hpasses⟩ => ?_
  dsimp only
  split
  · exact Succeeds.pure rfl
  next haccepted =>
    split
    · exact Succeeds.pure rfl
    next hunicast =>
      have hknown (hk : header.protocol = .icmp ∨ header.protocol = .udp) : False :=
        h header ⟨hheads, hpasses, by simpa using haccepted, by simpa using hunicast, hk⟩
      split
      · exact Succeeds.pure rfl
      · exact Succeeds.pure rfl
      · next hicmp => exact (hknown (.inl hicmp)).elim
      · next hudp => exact (hknown (.inr hudp)).elim

theorem deliver_eq (host : Host) (h : packet.length < Length.limit)
    (hheader : header.Heads packet) (hfits : up.Fits (packet.drop Packet.plainHeaderLen).length A)
    (hup : upper header (packet.drop Packet.plainHeaderLen) s = .ok up) :
    host.deliver upper header packet s = .ok (up.under packet Packet.plainHeaderLen
      fun len => (host.back header len).bytes host.checksum) := by
  have hlen := hheader.plain.length
  apply Succeeds.eq
  unfold deliver Packet.room
  rw [hheader.plain.headerLen]
  apply Succeeds.read (Bytes.rest_of_le hlen)
  apply Succeeds.read hup
  apply Succeeds.read (a := Packet.plainHeaderLen) rfl
  obtain ⟨outcome, bytes, t⟩ := up
  cases outcome with
  | drop => exact Succeeds.pure rfl
  | reflect len =>
    have hshort := hfits.short hlen h rfl
    apply Succeeds.read (Outcome.withHeader_of_lt hshort)
    apply Succeeds.read (((host.back header len).emit_appends host.checksum hshort).replaces
      (List.length_take_of_le hlen))
    exact Succeeds.pure rfl

theorem receive_taken (ht : host.Takes header packet) (h : packet.length < Length.limit)
    (hfits : up.Fits (packet.drop Packet.plainHeaderLen).length A)
    (hup : upper header (packet.drop Packet.plainHeaderLen) s = .ok up) :
    host.receive upper packet s =
      .ok (up.under packet Packet.plainHeaderLen
        fun len => (host.back header len).bytes host.checksum) := by
  apply Succeeds.eq
  apply Succeeds.read (ht.heads.reads ht.passes)
  dsimp only
  rw [if_neg (by rw [ht.accepted]; decide), if_neg (by rw [ht.unicast]; decide)]
  have hdeliver := host.deliver_eq h ht.heads hfits hup
  rcases ht.known with hicmp | hudp
  · rw [hicmp]
    exact ⟨_, hdeliver, rfl⟩
  · rw [hudp]
    exact ⟨_, hdeliver, rfl⟩

end Ipv4.Host

namespace Arp.Resolver

variable {r : Resolver} {m : Message} {packet : Bytes}

def handle (r : Resolver) (m : Message) (packet : Bytes) : Handled Resolver :=
  if m.targetProtocol ≠ r.subnet.address then .dropped packet r
  else
    match m.operation with
    | .request => ⟨.reflect Packet.plainLen, (r.back m).bytes ++ packet.drop Packet.plainLen, r⟩
    | .reply =>
      .dropped packet
        (if r.subnet.contains m.senderProtocol then r.learn m.senderProtocol m.senderHardware
        else r)
    | .unknown _ => .dropped packet r

theorem receive_untaken (h : ∀ m : Message, ¬m.Heads packet) :
    r.receive packet = .ok (.dropped packet r) := by
  apply Succeeds.eq
  exact (Message.parse_total packet).dispatch (fun _ => Succeeds.pure rfl)
    fun m hm => absurd hm (h m)

theorem receive_taken (hm : m.Heads packet) : r.receive packet = .ok (r.handle m packet) := by
  apply Succeeds.eq
  apply Succeeds.read hm.reads
  unfold handle
  dsimp only
  split
  · exact Succeeds.pure rfl
  cases m.operation with
  | request =>
    apply Succeeds.read ((r.back m).emit_appends.apply hm.plain.length)
    exact Succeeds.pure rfl
  | reply =>
    dsimp only
    split
    · exact Succeeds.pure rfl
    · exact Succeeds.pure rfl
  | unknown code => exact Succeeds.pure rfl

theorem handle_fits (hm : m.Heads packet) :
    (r.handle m packet).Fits packet.length (r.Answers packet) := by
  unfold handle
  split
  · exact .dropped rfl
  next htarget =>
    split
    · next hrequest =>
      have hlen : Packet.plainLen ≤ packet.length := hm.plain.length
      refine .reflect ?_ hlen ?_
      · rw [List.length_append, List.length_drop, (r.back m).length_bytes,
          Nat.add_sub_cancel' hlen]
      · rw [List.take_left' (i := Packet.plainLen) (r.back m).length_bytes]
        exact .reply hm hrequest (Decidable.not_not.1 htarget)
    · exact .dropped rfl
    · exact .dropped rfl

theorem handle_outcome : (r.handle m packet).outcome = .reflect n ↔
    m.operation = .request ∧ m.targetProtocol = r.subnet.address ∧ n = Packet.plainLen := by
  unfold handle Handled.dropped
  grind

theorem handle_state : (r.handle m packet).state =
    if m.operation = .reply ∧ m.targetProtocol = r.subnet.address ∧
      r.subnet.contains m.senderProtocol = true
    then r.learn m.senderProtocol m.senderHardware else r := by
  unfold handle Handled.dropped
  grind

end Arp.Resolver

namespace Icmp.Responder

structure Takes (r : Responder) (e : Echo) (message : Bytes) : Prop where
  heads : e.Heads message
  passes : r.checksum.Passes (Packet.verifyChecksum message)

variable {r : Responder} {e : Echo} {message : Bytes}

theorem receive_untaken (hlen : message.length ≤ 131074) (h : ∀ e, ¬r.Takes e message) :
    r.receive message = .ok (.drop, message) := by
  apply Succeeds.eq
  exact (Echo.parse_total r.checksum hlen).dispatch (fun _ => Succeeds.pure rfl)
    fun e ⟨hheads, hpasses⟩ => absurd ⟨hheads, hpasses⟩ (h e)

theorem receive_ping (ht : r.Takes e message) (hkind : e.kind = .request)
    (hallowed : r.denyEcho = false) : ∃ sum, Packet.checksum message = .ok sum ∧
      r.receive message = .ok (.reflect message.length, replied message sum) := by
  have hlen : Packet.headerLen ≤ message.length := ht.heads.length ▸ Nat.le_add_right _ _
  have hroom : 4 ≤ message.length := Nat.le_trans (by decide) hlen
  obtain ⟨sum, hsum, -⟩ : Succeeds (Packet.checksum message) fun _ => True :=
    Bytes.half_succeeds hlen (by decide)
  refine ⟨sum, hsum, ?_⟩
  apply Succeeds.eq
  apply Succeeds.read (ht.heads.reads ht.passes)
  dsimp only
  rw [if_pos (by rw [hkind, hallowed]; decide)]
  apply Succeeds.read (reply_apply hroom hsum)
  exact Succeeds.pure rfl

theorem receive_ignored (ht : r.Takes e message)
    (hignored : ¬(e.kind = .request ∧ r.denyEcho = false)) :
    r.receive message = .ok (.drop, message) := by
  apply Succeeds.eq
  apply Succeeds.read (ht.heads.reads ht.passes)
  dsimp only
  rw [if_neg (by simpa using hignored)]
  exact Succeeds.pure rfl

theorem receive_taken (ht : r.Takes e message) :
    Succeeds (r.receive message) fun p =>
      (⟨p.1, p.2, ()⟩ : Handled Unit).Fits message.length (r.Answers message) ∧
      ∀ n, p.1 = .reflect n ↔
        e.kind = .request ∧ r.denyEcho = false ∧ n = message.length := by
  by_cases hasked : e.kind = .request ∧ r.denyEcho = false
  · obtain ⟨hkind, hallowed⟩ := hasked
    obtain ⟨sum, hsum, hreceive⟩ := receive_ping ht hkind hallowed
    have hlen : Packet.headerLen ≤ message.length := ht.heads.length ▸ Nat.le_add_right _ _
    have hbytes : (replied message sum).length = message.length :=
      length_replied (Nat.le_trans (by decide) hlen)
    refine ⟨_, hreceive, .reflect hbytes (Nat.le_refl _) ?_, fun n => ?_⟩
    · rw [List.take_of_length_le (Nat.le_of_eq hbytes)]
      exact .echo ht.heads ht.passes hkind hallowed hsum
    · rw [Outcome.reflect.injEq, eq_comm]
      exact ⟨fun h => ⟨hkind, hallowed, h⟩, fun h => h.2.2⟩
  · exact ⟨_, receive_ignored ht hasked, .dropped rfl, fun n =>
      ⟨(nomatch ·), fun h => absurd ⟨h.1, h.2.1⟩ hasked⟩⟩

end Icmp.Responder

theorem Udp.Header.apply_overlay (h : Header) {packet : Bytes} (written : Bytes)
    (hroom : Packet.headerLen ≤ packet.length)
    (hlen : Packet.headerLen + h.payloadLen < Length.limit) :
    h.emit.apply (packet.overlay Packet.headerLen written) =
      .ok (h.bytes ++ Bytes.overlay (packet.drop Packet.headerLen) 0 written) := by
  rw [Bytes.overlay_eq]
  exact (h.emit_appends hlen).replaces (List.length_take_of_le hroom)

inductive Udp.Call where
  | request (buffer : Bytes) (source : Ipv4.Address) (port : Port) (len : Nat)
  | reply (buffer : Bytes) (source : Ipv4.Address) (port : Port) (len : Nat)
  deriving DecidableEq, Repr

def Udp.Call.run (app : Application σ) (s : σ) : Call → Except Fault σ
  | .request buffer source port len => .ok (app.request buffer source port len s).state
  | .reply buffer source port len => app.reply buffer source port len s

namespace Udp.Service

structure Takes (svc : Service) (ip : Ipv4.Header) (header : Header) (packet : Bytes) : Prop where
  heads : header.Heads packet
  passes : svc.checksum.Passes (Packet.verifyChecksum ip.source ip.destination packet)
  within : Packet.headerLen + header.payloadLen ≤ ip.payloadLen
  port : header.source = svc.port ∨ header.destination = svc.port

/-- A request comes with all the room behind the header, a reply with its payload. -/
def call (svc : Service) (ip : Ipv4.Header) (header : Header) (packet : Bytes) : Call :=
  if header.source = svc.port then
    .request (packet.drop Packet.headerLen) ip.source header.destination header.payloadLen
  else
    .reply ((packet.take (Packet.headerLen + header.payloadLen)).drop Packet.headerLen) ip.source
      header.source header.payloadLen

variable {svc : Service} {app : Application σ} {ip : Ipv4.Header} {header : Header}
  {packet : Bytes}

theorem receive_untaken (h : ∀ header, ¬svc.Takes ip header packet) :
    svc.receive app ip packet s = .ok (.dropped packet s) := by
  apply Succeeds.eq
  refine (Packet.checkLen_total packet).dispatch (fun _ => Succeeds.pure rfl)
    fun _ ⟨total, htotal⟩ => ?_
  apply Succeeds.read htotal.totalLen
  split
  · exact Succeeds.pure rfl
  next hwithin =>
    refine (Header.parse_total svc.checksum ip.source ip.destination packet).dispatch
      (fun _ => Succeeds.pure rfl) fun header ⟨hheads, hpasses⟩ => ?_
    obtain rfl : total = Packet.headerLen + header.payloadLen :=
      Except.ok.inj (htotal.totalLen.symm.trans hheads.holds.totalLen)
    have hport (hp : header.source = svc.port ∨ header.destination = svc.port) : False :=
      h header ⟨hheads, hpasses, Nat.not_lt.1 hwithin, hp⟩
    dsimp only
    split
    · next hsource => exact (hport (.inl hsource)).elim
    split
    · next hdestination => exact (hport (.inr hdestination)).elim
    · exact Succeeds.pure rfl

def handle (app : Application σ) (ip : Ipv4.Header) (header : Header) (packet : Bytes) (s : σ) :
    Handled σ :=
  let answer := app.serve ip header (packet.drop Packet.headerLen) s
  let dropped := .dropped (packet.overlay Packet.headerLen answer.written) answer.state
  match answer.len with
  | none => dropped
  | some len =>
    if (packet.drop Packet.headerLen).length < len then dropped
    else ⟨.reflect (Packet.headerLen + len), (header.back len).bytes ++
      app.left ip header (packet.drop Packet.headerLen) s, answer.state⟩

theorem handle_state : (handle app ip header packet s).state =
    (app.serve ip header (packet.drop Packet.headerLen) s).state := by
  unfold handle
  dsimp only
  split
  · rfl
  split
  · rfl
  · rfl

theorem handle_outcome : (handle app ip header packet s).outcome = .reflect n ↔
    ∃ len, (app.serve ip header (packet.drop Packet.headerLen) s).len = some len ∧
      len ≤ (packet.drop Packet.headerLen).length ∧ n = Packet.headerLen + len := by
  unfold handle Handled.dropped
  grind

theorem handle_answered
    (hlen : (app.serve ip header (packet.drop Packet.headerLen) s).len = some len)
    (hfits : len ≤ (packet.drop Packet.headerLen).length) :
    handle app ip header packet s = ⟨.reflect (Packet.headerLen + len),
      (header.back len).bytes ++ app.left ip header (packet.drop Packet.headerLen) s,
      (app.serve ip header (packet.drop Packet.headerLen) s).state⟩ := by
  unfold handle
  dsimp only
  rw [hlen]
  exact if_neg (Nat.not_lt.2 hfits)

theorem handle_fits (ht : svc.Takes ip header packet) (hrequest : header.source = svc.port) :
    (handle app ip header packet s).Fits packet.length (svc.Answers app ip packet s) := by
  have hroom := ht.heads.holds.headerLen_le
  have hover (data : Bytes) := Bytes.length_overlay data hroom
  unfold handle
  dsimp only
  split
  · exact .dropped (hover _)
  next len hanswer =>
    split
    · exact .dropped (hover _)
    next hshort =>
      have hlen := Nat.not_lt.1 hshort
      have hin : Packet.headerLen + len ≤ packet.length := by
        rw [List.length_drop] at hlen
        omega
      have hleft := app.length_left ip header (packet.drop Packet.headerLen) s
      have hup := Handled.Fits.reflect (A := (· = _)) (s := s) hleft hlen rfl
      have hanswers : svc.Answers app ip packet s ((header.back len).bytes ++ _) :=
        .datagram ht.heads ht.passes ht.within hrequest hanswer hin
      exact hup.under (header.back len).length_bytes hroom rfl fun a ha _ => ha ▸ hanswers

theorem receive_request (ht : svc.Takes ip header packet) (h : packet.length < Length.limit)
    (hrequest : header.source = svc.port) :
    svc.receive app ip packet s = .ok (handle app ip header packet s) := by
  have hroom := ht.heads.holds.headerLen_le
  apply Succeeds.eq
  apply Succeeds.read ht.heads.checkLen
  apply Succeeds.read ht.heads.holds.totalLen
  rw [if_neg (Nat.not_lt.2 ht.within)]
  apply Succeeds.read (ht.heads.reads ht.passes)
  unfold handle
  dsimp only
  rw [if_pos hrequest]
  apply Succeeds.read (Bytes.rest_of_le hroom)
  rw [Application.serve]
  cases (app.request (packet.drop Packet.headerLen) ip.source header.destination header.payloadLen
    s).len with
  | none => exact Succeeds.pure rfl
  | some len =>
    dsimp only
    by_cases hshort : (packet.drop Packet.headerLen).length < len
    · rw [if_pos hshort, if_pos hshort]
      exact Succeeds.pure rfl
    · rw [if_neg hshort, if_neg hshort]
      have hback : Packet.headerLen + len < Length.limit := by
        rw [List.length_drop] at hshort
        omega
      apply Succeeds.read ((header.back len).apply_overlay _ hroom hback)
      exact Succeeds.pure rfl

theorem receive_reply (ht : svc.Takes ip header packet) (hsource : header.source ≠ svc.port) {t : σ}
    (hreply : (svc.call ip header packet).run app s = .ok t) :
    svc.receive app ip packet s = .ok (.dropped packet t) := by
  have hholds := ht.heads.holds
  have hpayload : Packet.payload packet =
      .ok ((packet.take (Packet.headerLen + header.payloadLen)).drop Packet.headerLen) := by
    rw [Packet.payload, hholds.totalLen]
    exact Bytes.slice_of_le hholds.header hholds.inside
  rw [call, if_neg hsource] at hreply
  apply Succeeds.eq
  apply Succeeds.read ht.heads.checkLen
  apply Succeeds.read hholds.totalLen
  rw [if_neg (Nat.not_lt.2 ht.within)]
  apply Succeeds.read (ht.heads.reads ht.passes)
  dsimp only
  rw [if_neg hsource, if_pos (ht.port.resolve_left hsource)]
  apply Succeeds.read hpayload
  apply Succeeds.read hreply
  exact Succeeds.pure rfl

theorem receive_taken (app : Application σ) (s : σ) (ht : svc.Takes ip header packet)
    (h : packet.length < Length.limit) :
    Succeeds (svc.receive app ip packet s) fun up =>
      up.Fits packet.length (svc.Answers app ip packet s) ∧
      (svc.call ip header packet).run app s = .ok up.state := by
  by_cases hrequest : header.source = svc.port
  · refine ⟨_, receive_request ht h hrequest, handle_fits ht hrequest, ?_⟩
    rw [handle_state, call, if_pos hrequest]
    rfl
  · have hinside := ht.heads.holds.inside
    have hlen : header.payloadLen ≤
        ((packet.take (Packet.headerLen + header.payloadLen)).drop Packet.headerLen).length := by
      rw [List.length_drop, List.length_take_of_le hinside]
      exact Nat.le_of_eq (Nat.add_sub_cancel_left _ _).symm
    obtain ⟨t, hreply⟩ := app.reply_ok _ ip.source header.source _ s hlen
    have hrun : (svc.call ip header packet).run app s = .ok t := by
      rw [call, if_neg hrequest]
      exact hreply
    exact ⟨_, receive_reply ht hrequest hrun, .dropped rfl, hrun⟩

end Udp.Service

end Reflector
