import Savvy.Ipc.Envelope
import Savvy.Kit.Buffer

/-!
The receive loop of the connected worker (`worker_main` and `dispatch_envelope`
in `src/features/mgr_ipc/mgr_ipc_client.c`). `recv` writes into a buffer on the
worker's stack that keeps its contents from one turn to the next, and the record
is handed on as the buffer and a length. The JSON parser wants a terminated
text: it reads the byte behind the record, which `recv` does not write. The loop
is compared with what each record says as a text of its own.
-/

namespace Savvy.MgrIpc

open Ipc

structure RecvBuffer where
  bytes : List UInt8
  length_eq : bytes.length = maxMessage

/-- What a call of `recv` returns: a status, and the bytes that it has put at the
front of the buffer. With `SAVVY_OK` they are the record, and the length that is
returned is theirs; a record that is too long may leave its first bytes behind. -/
structure RecvResult where
  status : Status
  bytes : List UInt8
  length_le : bytes.length ≤ maxMessage

def RecvBuffer.receive (buf : RecvBuffer) (r : RecvResult) : RecvBuffer where
  bytes := Kit.write buf.bytes 0 r.bytes
  length_eq := by
    rw [Kit.length_write, buf.length_eq]
    simpa [buf.length_eq] using r.length_le

def RecvResult.skipped (r : RecvResult) : Bool := r.status = .timeout || r.status = .overflow

def RecvResult.isRecord (r : RecvResult) : Bool := r.status = .ok && 0 < r.bytes.length

/-- The conditions of `dispatch_envelope` on a parsed envelope. -/
def wanted (env : Envelope) : Bool :=
  actionKnown env.action && actionDirection env.action = .mgrToSensor &&
    validatePayload env.action env.payloadJson = .ok

/-- `dispatch_envelope`: the calls of `on_envelope`, or a fault if a byte outside
of the buffer is read. -/
def dispatchEnvelope (mem : List UInt8) (len : ℕ) : Option (List Envelope) :=
  (envelopeParseAt mem len).map fun parsed =>
    match parsed with
    | .error _ => []
    | .ok env => if wanted env then [env] else []

/-- The inner loop of `worker_main` on the results of `recv`: the calls of
`on_envelope`, in their order. -/
def receiveLoop (buf : RecvBuffer) : List RecvResult → Option (List Envelope)
  | [] => some []
  | r :: rs =>
      let buf := buf.receive r
      if r.skipped then receiveLoop buf rs
      else if r.isRecord then
        (dispatchEnvelope buf.bytes r.bytes.length).bind fun calls =>
          (receiveLoop buf rs).map (calls ++ ·)
      -- the end of the connection
      else some []

/-! ### Records as texts of their own -/

/-- The call that a record asks for. -/
def accepted (record : List UInt8) : List Envelope :=
  match envelopeParse record with
  | .error _ => []
  | .ok env => if wanted env then [env] else []

/-- The calls that the records ask for, up to the end of the connection. -/
def asked : List RecvResult → List Envelope
  | [] => []
  | r :: rs =>
      if r.skipped then asked rs
      else if r.isRecord then accepted r.bytes ++ asked rs
      else []

/-- The byte behind every record is in the buffer, and it is zero when a record
comes that asks for a call. -/
def Terminated (buf : RecvBuffer) : List RecvResult → Prop
  | [] => True
  | r :: rs =>
      if r.skipped then Terminated (buf.receive r) rs
      else if r.isRecord then
        r.bytes.length < maxMessage ∧
          (accepted r.bytes ≠ [] → buf.bytes[r.bytes.length]? = some 0) ∧
          Terminated (buf.receive r) rs
      else True

/-! ### One record -/

theorem receive_bytes (buf : RecvBuffer) (r : RecvResult) :
    (buf.receive r).bytes = r.bytes ++ buf.bytes.drop r.bytes.length := by
  simp [RecvBuffer.receive, Kit.write]

theorem getElem?_receive (buf : RecvBuffer) (r : RecvResult) :
    (buf.receive r).bytes[r.bytes.length]? = buf.bytes[r.bytes.length]? := by
  simp [receive_bytes, List.getElem?_append_right]

/-- The byte behind the record decides whether it is looked at. -/
theorem dispatchEnvelope_receive (buf : RecvBuffer) (r : RecvResult) :
    dispatchEnvelope (buf.receive r).bytes r.bytes.length =
      match buf.bytes[r.bytes.length]? with
      | none => none
      | some b => some (if b = 0 then accepted r.bytes else []) := by
  cases hbyte : buf.bytes[r.bytes.length]? with
  | none =>
      simp [dispatchEnvelope, envelopeParseAt, CJson.parseAt, getElem?_receive, hbyte]
  | some b =>
      by_cases hb : b = 0
      · subst hb
        obtain ⟨hlt, hget⟩ := List.getElem?_eq_some_iff.mp hbyte
        have hmem : (buf.receive r).bytes =
            r.bytes ++ 0 :: buf.bytes.drop (r.bytes.length + 1) := by
          rw [receive_bytes, List.drop_eq_getElem_cons hlt, hget]
        rw [dispatchEnvelope, envelopeParseAt, hmem, CJson.parseAt_terminated]
        rfl
      · simp [dispatchEnvelope, envelopeParseAt, CJson.parseAt, getElem?_receive, hbyte, hb]

/-- There is no byte behind a record that fills the buffer. -/
theorem getElem?_eq_none_iff_full (buf : RecvBuffer) (r : RecvResult) :
    buf.bytes[r.bytes.length]? = none ↔ r.bytes.length = maxMessage := by
  have hlen := buf.length_eq
  have hle := r.length_le
  rw [List.getElem?_eq_none_iff]
  omega

/-! ### The loop -/

/-- The loop makes no call that no record asks for. -/
theorem receiveLoop_sublist {buf : RecvBuffer} {results : List RecvResult}
    {calls : List Envelope} (h : receiveLoop buf results = some calls) :
    calls.Sublist (asked results) := by
  induction results generalizing buf calls with
  | nil =>
      cases h
      exact List.Sublist.refl _
  | cons r rs ih =>
      rw [receiveLoop] at h
      rw [asked]
      by_cases hskip : r.skipped
      · rw [if_pos hskip] at h ⊢
        exact ih h
      · rw [if_neg hskip] at h ⊢
        by_cases hrecord : r.isRecord
        · rw [if_pos hrecord, dispatchEnvelope_receive] at h
          rw [if_pos hrecord]
          obtain ⟨first, hfirst, hrest⟩ := Option.bind_eq_some_iff.mp h
          obtain ⟨rest, hloop, rfl⟩ := Option.map_eq_some_iff.mp hrest
          apply List.Sublist.append _ (ih hloop)
          split at hfirst
          · exact absurd hfirst (by simp)
          · cases hfirst
            split
            · exact List.Sublist.refl _
            · exact List.nil_sublist _
        · rw [if_neg hrecord] at h
          cases h
          exact List.nil_sublist _

/-- The worker makes exactly the calls that the records ask for, and reads no
byte outside of the buffer, if and only if no record fills the buffer and every
record that asks for a call finds a zero behind it. -/
theorem receiveLoop_eq_asked_iff (buf : RecvBuffer) (results : List RecvResult) :
    receiveLoop buf results = some (asked results) ↔ Terminated buf results := by
  induction results generalizing buf with
  | nil => simp [receiveLoop, asked, Terminated]
  | cons r rs ih =>
      rw [receiveLoop, asked, Terminated]
      by_cases hskip : r.skipped
      · simp only [if_pos hskip]
        exact ih (buf.receive r)
      simp only [if_neg hskip]
      by_cases hrecord : r.isRecord
      · simp only [if_pos hrecord, dispatchEnvelope_receive]
        have hfull := getElem?_eq_none_iff_full buf r
        have hle := r.length_le
        cases hbyte : buf.bytes[r.bytes.length]? with
        | none =>
            have := hfull.mp hbyte
            simp [this]
        | some b =>
            have hlt : r.bytes.length < maxMessage := by
              have : r.bytes.length ≠ maxMessage := fun h => by simp [hfull.mpr h] at hbyte
              omega
            rw [← ih (buf.receive r)]
            by_cases hcall : (if b = 0 then accepted r.bytes else []) = accepted r.bytes
            · -- the record gets its call, and the rest of the loop decides
              have hzero : accepted r.bytes ≠ [] → b = 0 := by
                intro hne
                by_contra hb
                rw [if_neg hb] at hcall
                exact hne hcall.symm
              simp only [Option.bind_some, hcall, hlt, true_and, Option.some.injEq]
              cases hloop : receiveLoop (buf.receive r) rs with
              | none => simp
              | some calls => simpa using fun _ => hzero
            · -- the record is dropped, and nothing makes up for it
              have hb : b ≠ 0 := fun h => hcall (if_pos h)
              rw [if_neg hb] at hcall
              have hne : accepted r.bytes ≠ [] := fun h => hcall h.symm
              have hdropped : ¬ (some b = some (0 : UInt8)) := fun h => hb (Option.some.inj h)
              simp only [if_neg hb, Option.bind_some, List.nil_append, Option.map_id']
              refine ⟨fun h => ?_, fun h => absurd (h.2.1 hne) hdropped⟩
              have hsub := (receiveLoop_sublist h).length_le
              rw [List.length_append] at hsub
              have := List.length_pos_iff.mpr hne
              omega
      · simp [hrecord]

/-! ### A shorter record behind a longer one -/

def zeroBuffer : RecvBuffer := ⟨List.replicate maxMessage 0, List.length_replicate⟩

/-- A record with an action that has no keys. -/
def actionRecord (action : String) : List UInt8 :=
  CJson.ascii "\x7b\"action\":\"" ++ CJson.ascii action ++ CJson.ascii "\",\"payload\":\x7b\x7d\x7d"

def recvStreamstart : RecvResult :=
  ⟨.ok, actionRecord "com.uniuni.savvysensor.streamstart", by decide +kernel⟩

def recvServerip : RecvResult :=
  ⟨.ok, actionRecord "com.uniuni.savvysensor.serverip", by decide +kernel⟩

/-- The second record is dropped: the byte behind it is the end of the first
one. -/
theorem receiveLoop_shorter_fails :
    asked [recvStreamstart, recvServerip] =
        [⟨CJson.ascii "com.uniuni.savvysensor.streamstart", CJson.ascii "\x7b\x7d"⟩,
          ⟨CJson.ascii "com.uniuni.savvysensor.serverip", CJson.ascii "\x7b\x7d"⟩] ∧
      receiveLoop zeroBuffer [recvStreamstart, recvServerip] =
        some [⟨CJson.ascii "com.uniuni.savvysensor.streamstart", CJson.ascii "\x7b\x7d"⟩] ∧
      receiveLoop zeroBuffer [recvStreamstart, recvServerip] ≠
        some (asked [recvStreamstart, recvServerip]) := by
  have hasked : asked [recvStreamstart, recvServerip] =
      [⟨CJson.ascii "com.uniuni.savvysensor.streamstart", CJson.ascii "\x7b\x7d"⟩,
        ⟨CJson.ascii "com.uniuni.savvysensor.serverip", CJson.ascii "\x7b\x7d"⟩] := by
    decide +kernel
  have hloop : receiveLoop zeroBuffer [recvStreamstart, recvServerip] =
      some [⟨CJson.ascii "com.uniuni.savvysensor.streamstart", CJson.ascii "\x7b\x7d"⟩] := by
    decide +kernel
  refine ⟨hasked, hloop, ?_⟩
  rw [hasked, hloop]
  simp

end Savvy.MgrIpc
