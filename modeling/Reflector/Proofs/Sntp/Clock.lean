import Reflector.Proofs.Arp.Neighbors
import Reflector.Proofs.Device.Poll
import Reflector.Proofs.Interface.Effects
import Reflector.Proofs.Sntp.Client
/-!
The clock of a device is set by the replies of its time server, and by nothing else.
-/
namespace Reflector

theorem Arp.Resolver.learn_keeps (r : Resolver) (a : Ipv4.Address) (hardware : Ethernet.Address) :
    (r.learn a hardware).hardware = r.hardware ∧ (r.learn a hardware).subnet = r.subnet := by
  unfold learn
  split
  · next c hfill => exact ⟨rfl, NeighborCache.fill_subnet hfill⟩
  · exact ⟨rfl, rfl⟩

namespace Interface

open Sntp (Client Serves Time Timestamp ticksOfFraction)

variable {σ κ : Type} {i j : Interface} {c : Client} {frame : Bytes} {frames : List Bytes}
  {times : List Time} {d : Datagram} {t : Timestamp} {setTime : Time → κ → κ}
  {app : Udp.Application σ} {clock : σ → κ}

/-- Devices with the same addresses and settings, whatever neighbors they know. -/
structure Kin (i j : Interface) : Prop where
  hardware : i.hardware = j.hardware
  subnet : i.subnet = j.subnet
  checksum : i.checksum = j.checksum
  port : i.port = j.port

theorem Kin.refl : Kin i i := ⟨rfl, rfl, rfl, rfl⟩

theorem Kin.symm (h : Kin i j) : Kin j i :=
  ⟨h.hardware.symm, h.subnet.symm, h.checksum.symm, h.port.symm⟩

theorem Kin.carries {d : Datagram} (h : Kin i j) (hd : i.Carries frame d) : j.Carries frame d :=
  { hd with
    datagram := { hd.datagram with
      addressed := h.hardware ▸ hd.datagram.addressed
      verified := h.checksum ▸ hd.datagram.verified
      accepted := h.subnet ▸ hd.datagram.accepted }
    verified := h.checksum ▸ hd.verified
    port := h.port ▸ hd.port }

/-- A frame by which the server of a client tells the time: a reply from its address and port, 48
bytes long. -/
structure TellsTime (i : Interface) (c : Client) (frame : Bytes) (d : Datagram) (t : Timestamp) :
    Prop where
  carries : i.Carries frame d
  server : d.source = c.server
  port : d.sourcePort = 123
  len : d.len.toNat = 8 + 48
  first : ∃ first, frame.octet 42 = .ok first ∧ Serves first
  secs : frame.word 82 = .ok t.secs
  frac : frame.word 86 = .ok t.frac
  known : t ≠ ⟨0, 0⟩

theorem Kin.tellsTime (h : Kin i j) (ht : i.TellsTime c frame d t) : j.TellsTime c frame d t :=
  { ht with carries := h.carries ht.carries }

theorem receive_kin {handled : Handled (Interface × σ)} (app : Udp.Application σ) (s : σ)
    (h : frame.length < Length.limit) (hreceive : i.receive app frame s = .ok handled) :
    Kin i handled.state.1 := by
  by_cases hnone : ∀ m, ¬i.Announces frame m
  · rw [(receive_keeps app s h hnone).holds hreceive]
    exact .refl
  · obtain ⟨m, hm⟩ := Classical.not_forall_not.1 hnone
    rw [(hm.learns app s h).holds hreceive]
    obtain ⟨hhardware, hsubnet⟩ :=
      i.resolver.learn_keeps m.senderProtocol m.senderHardware
    exact ⟨hhardware.symm, hsubnet.symm, rfl, rfl⟩

theorem Carries.timeOfReply_iff {time : Time} (hd : i.Carries frame d) :
    c.timeOfReply ((frame.take (34 + d.len.toNat)).drop 42) d.source d.sourcePort
        (d.len.toNat - 8) = .ok (some time) ↔
      ∃ t, i.TellsTime c frame d t ∧ time = c.settings.timeOf t := by
  have hheader := hd.header
  have hlen : ((frame.take (34 + d.len.toNat)).drop 42).length = d.len.toNat - 8 := by
    have hinside := hd.inside
    have hframe := hd.datagram.inside
    rw [List.length_drop, List.length_take]
    omega
  rw [Client.timeOfReply_iff (Nat.le_of_eq hlen.symm), ← hlen, List.take_length]
  constructor
  · rintro ⟨⟨hserver, hport⟩, t, ⟨hlength, first, hsecs, hfrac, hknown⟩, rfl⟩
    have hbytes : d.len.toNat = 8 + 48 := by omega
    rw [hbytes] at first hsecs hfrac
    rw [Bytes.octet_drop, Bytes.octet_take (by decide)] at first
    rw [Bytes.word_drop, Bytes.word_take (by decide)] at hsecs hfrac
    exact ⟨t, ⟨hd, hserver, hport, hbytes, first, hsecs, hfrac, hknown⟩, rfl⟩
  · rintro ⟨t, ht, rfl⟩
    have hlength : ((frame.take (34 + d.len.toNat)).drop 42).length = 48 := by rw [hlen, ht.len]
    refine ⟨⟨ht.server, ht.port⟩, t, ⟨hlength, ?_, ?_, ?_, ht.known⟩, rfl⟩
    · rw [ht.len, Bytes.octet_drop, Bytes.octet_take (by decide)]
      exact ht.first
    · rw [ht.len, Bytes.word_drop, Bytes.word_take (by decide)]
      exact ht.secs
    · rw [ht.len, Bytes.word_drop, Bytes.word_take (by decide)]
      exact ht.frac

theorem TellsTime.receive (ht : i.TellsTime c frame d t) (hport : i.port ≠ 123)
    (hclient : c.Within setTime app clock) (s : σ) (h : frame.length < Length.limit) :
    Succeeds (i.receive app frame s) fun handled => handled.outcome = .drop ∧
      handled.bytes = frame ∧
      clock handled.state.2 = setTime (c.settings.timeOf t) (clock s) := by
  have hreply : d.sourcePort ≠ i.port := ht.port ▸ hport.symm
  obtain ⟨_, -, -, hrun⟩ := ht.carries.receive_call app s h
  refine ⟨_, ht.carries.receive_reply hreply h hrun, rfl, rfl, ?_⟩
  rw [call, if_neg hreply] at hrun
  obtain ⟨told, htold, hclock⟩ := hclient.reply hrun
  cases htold.symm.trans (ht.carries.timeOfReply_iff.2 ⟨t, ht, rfl⟩)
  exact hclock

theorem receive_untold (hnone : ∀ d t, ¬i.TellsTime c frame d t)
    (hclient : c.Within setTime app clock) (s : σ) (h : frame.length < Length.limit) :
    Succeeds (i.receive app frame s) fun handled => clock handled.state.2 = clock s := by
  by_cases huncalled : ∀ d, ¬i.Carries frame d
  · obtain ⟨alone, halone⟩ := receive_uncalled h huncalled
    exact ⟨_, halone app s, rfl⟩
  obtain ⟨d, hd⟩ := Classical.not_forall_not.1 huncalled
  refine (hd.receive_call app s h).weaken fun handled ⟨_, hrun⟩ => ?_
  unfold call at hrun
  split at hrun
  · rw [← Except.ok.inj hrun]
    exact hclient.request _ _ _ _ s
  · obtain ⟨told, htold, hclock⟩ := hclient.reply hrun
    cases told with
    | none => exact hclock
    | some time =>
      obtain ⟨t, ht, -⟩ := hd.timeOfReply_iff.1 htold
      exact absurd ht (hnone d t)

inductive Told (i : Interface) (c : Client) : List Bytes → List Time → Prop
  | nil : i.Told c [] []
  | tells {frame : Bytes} {frames : List Bytes} {times : List Time} {d : Datagram} {t : Timestamp}
      (h : i.TellsTime c frame d t) (rest : i.Told c frames times) :
      i.Told c (frame :: frames)
        (⟨t.secs - c.settings.epoch.offset, ticksOfFraction t.frac⟩ :: times)
  | silent {frame : Bytes} {frames : List Bytes} {times : List Time}
      (h : ∀ d t, ¬i.TellsTime c frame d t) (rest : i.Told c frames times) :
      i.Told c (frame :: frames) times

theorem Kin.told (h : Kin i j) (ht : i.Told c frames times) : j.Told c frames times := by
  induction ht with
  | nil => exact .nil
  | tells ht _ ih => exact .tells (h.tellsTime ht) ih
  | silent hnone _ ih => exact .silent (fun d t ht => hnone d t (h.symm.tellsTime ht)) ih

/-- The clock is set once for each frame by which the server tells the time, to that time, and never
else. No such frame is answered. -/
theorem receiveAll_clock (i : Interface) (hport : i.port ≠ 123)
    (hclient : c.Within setTime app clock) (s : σ)
    (h : ∀ frame ∈ frames, frame.length < Length.limit) :
    ∃ results j t times, receiveAll app frames (i, s) = .ok (results, j, t) ∧
      i.Told c frames times ∧ clock t = times.foldl (fun k time => setTime time k) (clock s) ∧
      results.length = frames.length ∧ ∀ p ∈ frames.zip results, ∀ d t, i.TellsTime c p.1 d t →
        p.2.outcome = .drop ∧ p.2.bytes = p.1 := by
  induction frames generalizing i s with
  | nil => exact ⟨[], i, s, [], rfl, .nil, rfl, rfl, fun _ hp => nomatch hp⟩
  | cons frame frames ih =>
    -- a frame may teach the device a neighbor, which does not matter to what tells the time
    obtain ⟨hframe, hframes⟩ := List.forall_mem_cons.1 h
    obtain ⟨handled, hreceive, -⟩ := i.receive_total app s hframe
    have hkin := receive_kin app s hframe hreceive
    obtain ⟨results, j, t, times, hall, htold, hclock, hlen, hdropped⟩ :=
      ih handled.state.1 (hkin.port ▸ hport) handled.state.2 hframes
    have hrest := hkin.symm.told htold
    have hdrop (p) (hp : p ∈ (frame :: frames).zip (handled :: results)) (d : Datagram)
        (t : Timestamp) (ht : i.TellsTime c p.1 d t) : p.2.outcome = .drop ∧ p.2.bytes = p.1 := by
      rcases List.mem_cons.1 hp with rfl | hp
      · obtain ⟨houtcome, hbytes, -⟩ := (ht.receive hport hclient s hframe).holds hreceive
        exact ⟨houtcome, hbytes⟩
      · exact hdropped p hp d t (hkin.tellsTime ht)
    refine ⟨handled :: results, j, t, ?_⟩
    by_cases hnone : ∀ d t, ¬i.TellsTime c frame d t
    · have hsame := (receive_untold hnone hclient s hframe).holds hreceive
      exact ⟨times, receiveAll_cons hreceive hall, .silent hnone hrest, hsame ▸ hclock,
        congrArg _ hlen, hdrop⟩
    · obtain ⟨d, htime⟩ := Classical.not_forall.1 hnone
      obtain ⟨time, ht⟩ := Classical.not_forall_not.1 htime
      have hset := ((ht.receive hport hclient s hframe).holds hreceive).2.2
      rw [hset] at hclock
      exact ⟨_, receiveAll_cons hreceive hall, .tells ht hrest, hclock, congrArg _ hlen, hdrop⟩

/-- A server on the link tells the standard device that the year 2020 begins, and half a second. -/
def newYear : Bytes :=
  Ethernet.Header.bytes ⟨⟨2, 0, 0, 0, 0, 9⟩, Config.standard.hardware, .ipv4⟩ ++
    Ipv4.Header.bytes ⟨.ofOctets 192 168 200 9, .ofOctets 192 168 200 40, .udp, 56, 64⟩ .manual ++
    Udp.Header.bytes ⟨123, Udp.Service.automatonPort, 48⟩ ++
    Sntp.Message.bytes ⟨.noWarning, 3, .server, 1, ⟨3786825600, 0x80000000⟩⟩

/-- The clock of this one is a list of all the times that it was set to. -/
theorem receiveAll_clock_newYear : (new .standard []).port ≠ 123 ∧
    (∀ frame ∈ [newYear, question], frame.length < Length.limit) ∧ ∃ results j t,
      receiveAll ((Client.application ⟨.ofOctets 192 168 200 9, ⟨.unix⟩⟩
        fun time log => time :: log).beside Udp.Application.none) [newYear, question]
          (new .standard [], [], ()) = .ok (results, j, t) ∧ t.1 = [⟨1577836800, 31249⟩] := by
  have hsum : Checksum.data ((newYear.drop 14).take 20) = .ok Checksum.ones :=
    (Checksum.data_of_length_le (by decide)).trans (congrArg _ (by decide))
  have hreaches : (new .standard []).ReachesHost newYear (.ofOctets 192 168 200 9)
      (.ofOctets 192 168 200 40) 17 76 :=
    ⟨⟨by decide, .inl rfl, rfl⟩, rfl, rfl, by decide, by decide, ⟨0x4000, rfl, rfl⟩, rfl,
      fun _ => hsum, rfl, rfl, rfl, .inl rfl⟩
  have hcarries : (new .standard []).Carries newYear
      ⟨.ofOctets 192 168 200 9, .ofOctets 192 168 200 40, 76, 123, Udp.Service.automatonPort, 56⟩ :=
    ⟨hreaches, rfl, rfl, rfl, by decide, by decide, fun _ => .inl rfl, .inr rfl⟩
  have htells : (new .standard []).TellsTime ⟨.ofOctets 192 168 200 9, ⟨.unix⟩⟩ newYear
      ⟨.ofOctets 192 168 200 9, .ofOctets 192 168 200 40, 76, 123, Udp.Service.automatonPort, 56⟩
      ⟨3786825600, 0x80000000⟩ :=
    ⟨hcarries, rfl, rfl, rfl, ⟨0x1c, rfl, rfl, rfl, by decide⟩, rfl, rfl, by decide⟩
  have hport : (new .standard []).port ≠ 123 := by decide
  have hshort : ∀ frame ∈ [newYear, question], frame.length < Length.limit := by decide
  obtain ⟨results, j, t, times, hall, htold, hclock, -⟩ := receiveAll_clock (new .standard []) hport
    (Client.Within.alone.first Udp.Application.none) ([], ()) hshort
  refine ⟨hport, hshort, results, j, t, hall, ?_⟩
  cases htold with
  | silent hnone => exact absurd htells (hnone _ _)
  | tells hnow hlater =>
    rw [Except.ok.inj (hnow.secs.symm.trans htells.secs),
      Except.ok.inj (hnow.frac.symm.trans htells.frac)] at hclock
    cases hlater with
    | silent _ hend =>
      cases hend
      exact hclock
    | tells hnever => exact nomatch hnever.carries.datagram.etherType

end Interface

end Reflector
