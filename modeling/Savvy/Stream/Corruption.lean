import Savvy.Protocol.Crc
import Savvy.Protocol.PacketRoundTrip
import Savvy.Stream.Replies

/-!
A packet whose data was changed within four bytes on the way. Its checksum no
longer fits, whatever else it holds, so the channel reports it as invalid, and
the completion of a data request passes no body on to the result policy.
-/

namespace Savvy.Stream

open Kit Tcp

/-- The argument with which `on_data_complete` calls the result policy, if it
calls it at all; a null body is `none`. -/
def policyArgument (r : TcpResult) : Option (Option (List UInt8)) :=
  if r.status = .ok ∧ r.command = wireCmdResponse then some (if r.crcValid then some r.data else none)
  else none

/-- The policy sees nothing else of a data completion. -/
theorem onDataComplete_policyArgument (A : Arch) (p : ResultPolicy) (r : TcpResult) :
    ((onDataComplete A p r).policy, (onDataComplete A p r).alerts) =
      ((policyArgument r).map (p.onResponse A)).getD (p, []) := by
  unfold onDataComplete policyArgument
  by_cases h : r.status = .ok ∧ r.command = wireCmdResponse
  · simp only [if_pos h, Option.map_some, Option.getD_some]
  · simp only [if_neg h, Option.map_none, Option.getD_none]

/-- A result whose checksum is reported as invalid and whose data does not reach
the policy: the callback passes it no body, reports a failure and leaves the policy
as it was. -/
structure Flagged (r : TcpResult) : Prop where
  crcValid : r.crcValid = false
  noBody : ∀ body, policyArgument r ≠ some (some body)
  completion (A : Arch) (p : ResultPolicy) : (onDataComplete A p r).ok = false ∧
    (onDataComplete A p r).policy = p ∧ (onDataComplete A p r).alerts = []

theorem flagged_of_crcValid {r : TcpResult} (h : r.crcValid = false) : Flagged r := by
  have hargument : policyArgument r = none ∨ policyArgument r = some none := by
    unfold policyArgument
    rw [h]
    split
    · exact .inr rfl
    · exact .inl rfl
  refine ⟨h, fun body hbody => ?_, fun A p => ⟨by simp [onDataComplete, h], ?_⟩⟩
  · rcases hargument with harg | harg
    · rw [harg] at hbody
      cases hbody
    · rw [harg] at hbody
      cases Option.some.inj hbody
  · have heffect := onDataComplete_policyArgument A p r
    rcases hargument with harg | harg
    · rw [harg] at heffect
      exact Prod.mk.inj heffect
    · rw [harg] at heffect
      exact Prod.mk.inj heffect

/-! ### The packet on the wire -/

/-- The packet as it arrives: its header, and other data behind it. -/
def corruptedBytes (wire data' : List UInt8) : List UInt8 := wire.take packetHeaderLen ++ data'

section Packet

variable {start command device config : UInt8} {serial data data' : List UInt8}
  (hserial : serial.length = packetSerialLen) (hdata : data.length ≤ 2 ^ 32 - 1)
  (hlen : data.length = data'.length)

include hserial hdata hlen

/-- The header is as it was sent, and the data is what has become of it. -/
theorem frontPacket_corrupted (more zs : List UInt8) :
    packetSize (corruptedBytes (packetBytes start command device config serial data ++ more) data' ++
        zs) = packetHeaderLen + data'.length ∧
      frontPacket (corruptedBytes (packetBytes start command device config serial data ++ more)
          data' ++ zs) =
        ⟨⟨start, command, device, config, UInt32.ofNat data.length, serial, crc32 data⟩, data'⟩ := by
  have hwire : packetHeaderLen ≤
      (packetBytes start command device config serial data ++ more).length := by
    rw [List.length_append, length_packetBytes hserial]
    omega
  have hhead : ((packetBytes start command device config serial data ++ more).take
      packetHeaderLen).length = packetHeaderLen := List.length_take_of_le hwire
  have hread : readHeader (corruptedBytes
      (packetBytes start command device config serial data ++ more) data' ++ zs) =
        ⟨start, command, device, config, UInt32.ofNat data.length, serial, crc32 data⟩ := by
    rw [corruptedBytes, List.append_assoc, readHeader_append hhead.ge,
      readHeader_take (Nat.le_refl _) hwire, readHeader_packetBytes hserial]
  have hsize : packetSize (corruptedBytes
      (packetBytes start command device config serial data ++ more) data' ++ zs) =
        packetHeaderLen + data'.length := by
    rw [packetSize, hread, ← hlen]
    dsimp only
    rw [UInt32.toNat_ofNat', Nat.mod_eq_of_lt (by omega)]
  refine ⟨hsize, ?_⟩
  rw [frontPacket, hread, hsize]
  congr 1
  rw [corruptedBytes, slice, List.append_assoc, List.take_append, hhead,
    List.take_of_length_le (by omega), Nat.add_sub_cancel_left, List.take_left' rfl,
    List.drop_left' hhead]

end Packet

theorem crcValid_corrupted {data' : List UInt8} {header : PacketHeader} (hne : data' ≠ [])
    (hcrc : header.crc32 ≠ crc32 data') : (TcpResult.ofPacket ⟨header, data'⟩).crcValid = false := by
  have hpos : (data'.length == 0) = false := by
    rw [beq_eq_false_iff_ne]
    exact fun h => hne (List.length_eq_zero_iff.mp h)
  simp only [TcpResult.ofPacket, hpos, Bool.false_or]
  exact beq_eq_false_iff_ne.mpr hcrc

/-! ### The channel -/

/-- An item that is answered at all is answered with the packet at the front of
the stream. -/
theorem crcValid_of_front {A : Arch} {ch base : Channel} {item : QueueItem} {d : Processed}
    (hout : ItemOutcome A ch item d) (hbase : d.sentOn = some base) {ys xs : List UInt8}
    (hstream : base.parser.unread ++ d.received ++ ys = xs)
    (hfront : (TcpResult.ofPacket (frontPacket xs)).crcValid = false) :
    d.result.crcValid = false := by
  cases hout with
  | answered _ _ hr hok hpk =>
      cases hbase
      obtain ⟨pk, -, hpk', hframes⟩ | ⟨hnot, -⟩ := hr.answer
      · cases hpk.symm.trans hpk'
        have hpk := eq_frontPacket_of_parse (hframes ys)
        rw [hpk]
        exact hstream ▸ hfront
      · exact absurd hok hnot
  | _ => rfl

/-- Corruption of the data within four bytes changes the checksum; whatever
happens on the channel, the packet is not reported as valid and its data does not
reach the policy, and if it arrives within the buffer it is reported as it is. -/
theorem short_corruption_flagged (A : Arch) :
    (∀ data data', DifferWithin 4 data data' → crc32 data ≠ crc32 data') ∧
      ∀ (start command device config : UInt8) (serial data out : Span A) (outWritten : Option ℕ)
        (wire data' : List UInt8),
        (packetEncode start command device config serial data out outWritten).status = .ok →
        (packetEncode start command device config serial data out outWritten).out = some wire →
        DifferWithin 4 data.content data' →
        ∀ (buf : Storage A) (jobs : List Job) (ch : Channel) (ds : List Done) (item : QueueItem)
          (env : ItemEnv), runWorker A (.create buf.bytes) jobs = some (ch, ds) →
          (∀ d base ys zs, processItem A ch item env = some d → d.sentOn = some base →
            base.parser.unread ++ d.received ++ ys = corruptedBytes wire data' ++ zs →
            Flagged d.result) ∧
          ∀ base cs zs, item.kind = .normal →
            Arrives ch item env base cs (corruptedBytes wire data' ++ zs) →
            ∃ d, processItem A ch item env = some d ∧ Flagged d.result ∧
              (reach (packetHeaderLen + data'.length) base.parser.unread.length cs ≤
                  buf.bytes.length →
                d.result = ⟨.ok, start, command, false, data'⟩) := by
  refine ⟨fun data data' h => h.crc32_ne, ?_⟩
  intro start command device config serial data out outWritten wire data' hok hwire hdiffer buf jobs
    ch ds item env hrun
  obtain ⟨hwhen, hleaves, -⟩ := packetEncode_spec start command device config serial data out outWritten
  obtain ⟨⟨hserialNull, hdataNull, -, -⟩, hserialLen, hdataLen, -, -⟩ := hwhen.mp hok
  rw [hleaves hok] at hwire
  obtain rfl := Option.some.inj hwire
  have hserial : serial.content.length = packetSerialLen := by
    rw [Span.length_content fun hnone => absurd hnone hserialNull, hserialLen]
  have hdata : data.content.length ≤ 2 ^ 32 - 1 := by
    rw [Span.length_content hdataNull]
    exact hdataLen
  have hne : data' ≠ [] := by
    rintro rfl
    exact hdiffer.ne (List.length_eq_zero_iff.mp hdiffer.length_eq)
  have hgood := runWorker_good (.create buf) hrun
  refine ⟨fun d base ys zs hproc hbase hstream => ?_, fun base cs zs hkind harrives => ?_⟩
  · obtain ⟨-, hfront⟩ := frontPacket_corrupted hserial hdata hdiffer.length_eq
      (out.content.drop (packetHeaderLen + data.len)) zs
    apply flagged_of_crcValid
    refine crcValid_of_front (processItem_outcome hgood.wf hproc) hbase hstream ?_
    rw [hfront]
    exact crcValid_corrupted hne hdiffer.crc32_ne
  · obtain ⟨hsize, hfront⟩ := frontPacket_corrupted hserial hdata hdiffer.length_eq
      (out.content.drop (packetHeaderLen + data.len)) zs
    obtain ⟨d, hd, hresult⟩ := harrives.result hgood hkind
    rw [hsize, hfront] at hresult
    refine ⟨d, hd, flagged_of_crcValid ?_, fun hfits => ?_⟩
    · rw [hresult]
      split
      · exact crcValid_corrupted hne hdiffer.crc32_ne
      · rfl
    · rw [hresult, if_pos hfits, TcpResult.ofPacket]
      congr 1
      exact crcValid_corrupted hne hdiffer.crc32_ne

/-- The body `4` that arrives as `7`, in one piece. -/
theorem short_corruption_flagged_digit :
    ∃ d, processItem .lp64 (Channel.create (List.replicate 27 0)) pirinItem
        (serverEnv pirinItem.packet.length
          (corruptedBytes (packetBytes 83 82 0 0 (List.replicate 14 48) [52]) [55])) = some d ∧
      Flagged d.result ∧ d.result = ⟨.ok, 83, 82, false, [55]⟩ := by
  have hdiffer : DifferWithin 4 [52] [55] := by
    refine ⟨rfl, by decide, 0, fun j hj => ?_⟩
    have hj1 : 1 ≤ j := by omega
    rw [List.getElem?_eq_none hj1, List.getElem?_eq_none hj1]
  obtain ⟨d, hd, hflagged, hreported⟩ := ((short_corruption_flagged .lp64).2 83 82 0 0
    (.block (List.replicate 14 48) (by decide)) (.block [52] (by decide))
    (.block (List.replicate 27 0) (by decide)) (some 0)
    (packetBytes 83 82 0 0 (List.replicate 14 48) [52]) [55] (by decide +kernel) (by decide +kernel)
    hdiffer ⟨List.replicate 27 0, by decide⟩ [] _ _ pirinItem _ rfl).2 _ _ [] rfl
    (arrives_serverEnv rfl (by decide +kernel) (by decide +kernel))
  exact ⟨d, hd, hflagged, hreported (by decide +kernel)⟩

end Savvy.Stream
