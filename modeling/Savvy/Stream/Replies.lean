import Savvy.Json.DataResultPolicy
import Savvy.Json.NumberText
import Savvy.Stream.Capacity
import Savvy.Stream.Completions
import Savvy.Stream.ParserInput
import Savvy.Stream.Sends
import Savvy.Tcp.FirstPacket

/-!
A send of a session from its packet to `on_sent`: the channel waits for the first
packet of the stream, in a buffer that was sized for the packets the session
sends, and the completion callback reads that packet. A response of the server
comes through if it is no longer than the longest packet of the session; the echo
of a PIRIN is accepted whatever its body.
-/

namespace Savvy.Stream

open CJson Kit Tcp

/-! ### The body of a response -/

/-- `{result:c}` with the code in decimal, with or without a space before it. -/
def responseBody (space : Bool) (code : ℤ) : List UInt8 :=
  ascii "\x7bresult:" ++ ((if space then [32] else []) ++ formatInt code ++ ascii "\x7d")

theorem length_responseBody_le {space : Bool} {code : ℤ} (hcode : IsInt32 code) :
    (responseBody space code).length ≤ 21 := by
  have hopen : (ascii "\x7bresult:").length = 8 := by decide
  have hclose : (ascii "\x7d").length = 1 := by decide
  have hspace : (if space then [(32 : UInt8)] else []).length ≤ 1 := by cases space <;> decide
  have hint := length_formatInt_le hcode
  rw [responseBody, List.length_append, List.length_append, List.length_append]
  omega

theorem printNumber_eq_formatInt {code : ℤ} (hcode : IsInt32 code) :
    printNumber (.finite (code : ℚ)) = formatInt code := by
  rw [printNumber_int32 hcode, formatInt]
  simp only [decide_eq_true_eq]

theorem parseWithOpts_response {ws : List UInt8} {code : ℤ} (hws : ∀ b ∈ ws, isWs b = true)
    (hcode : IsInt32 code) :
    parseWithOpts (quoted (ascii "\x7b") (58 :: (ws ++ formatInt code ++ ascii "\x7d"))) =
      some (.object [(ascii "result", .number (.finite code))]) := by
  have hname : cstr (ascii "result") = ascii "result" := by decide
  have hkey : 34 :: ascii "result" ++ [34] = printString (ascii "result") := by decide
  have hclose : ascii "\x7d" = [125] := by decide
  have hbrace : ascii "\x7b" = [123] := by decide
  rw [← printNumber_eq_formatInt hcode, hclose]
  obtain ⟨b, r, hbr, hb⟩ := printNumber_head hcode
  have hlow : 32 < b := by
    obtain ⟨hmin, -⟩ := range_of_number_head hb
    exact UInt8.lt_of_lt_of_le (by decide) hmin
  have hends : Ends [125, 0] := ends_cons (by decide)
  have hvalue (levels : ℕ) : parseValue levels (printNumber (.finite (code : ℚ)) ++ [125, 0]) =
      some (.number (.finite code), [125, 0]) := by
    cases levels with
    | zero => exact parseValueWith_number _ _ _ hcode hends
    | succ levels => exact parseValueWith_number _ _ _ hcode hends
  have htext : quoted [123] (58 :: (ws ++ printNumber (.finite (code : ℚ)) ++ [125])) ++ [0] =
      123 :: (printString (ascii "result") ++
        58 :: (ws ++ (printNumber (.finite (code : ℚ)) ++ [125, 0]))) := by
    rw [← hkey, quoted]
    simp
  have hskip : skipWhitespace (ws ++ (printNumber (.finite (code : ℚ)) ++ [125, 0])) =
      printNumber (.finite (code : ℚ)) ++ [125, 0] := by
    rw [hbr]
    exact skipWhitespace_ws hws hlow _
  have hmembers (turns levels : ℕ) : parseMembers (parseValue levels) (turns + 1)
      (printString (ascii "result") ++ 58 :: (ws ++ (printNumber (.finite (code : ℚ)) ++ [125, 0]))) =
        some ([(ascii "result", .number (.finite code))], [0]) := by
    simp [parseMembers, skipWhitespace_of_opens (opens_append (opens_printString _) _),
      parseString_print, skipWhitespace_of_lt (show (32 : UInt8) < 58 by decide), hskip, hvalue,
      skipWhitespace_of_lt (show (32 : UInt8) < 125 by decide), hname]
  have hobject (levels : ℕ) : parseObject (parseValue levels)
      (printString (ascii "result") ++ 58 :: (ws ++ (printNumber (.finite (code : ℚ)) ++ [125, 0]))) =
        some (.object [(ascii "result", .number (.finite code))], [0]) := by
    have hopens := skipWhitespace_of_opens (opens_append (opens_printString (ascii "result"))
      (58 :: (ws ++ (printNumber (.finite (code : ℚ)) ++ [125, 0]))))
    have hcons : printString (ascii "result") = 34 :: (ascii "result" ++ [34]) := by decide
    rw [parseObject, hopens]
    rw [hcons] at hmembers ⊢
    rw [List.cons_append] at hmembers ⊢
    dsimp only
    rw [if_neg (by decide), hmembers]
    rfl
  have hbom : skipUtf8Bom (123 :: (printString (ascii "result") ++
      58 :: (ws ++ (printNumber (.finite (code : ℚ)) ++ [125, 0])))) =
      123 :: (printString (ascii "result") ++
        58 :: (ws ++ (printNumber (.finite (code : ℚ)) ++ [125, 0]))) := by
    refine if_neg fun h => ?_
    have hhead := congrArg List.head? h.2
    simp at hhead
  rw [parseWithOpts_eq, hbrace, htext, hbom, skipWhitespace_of_lt (by decide)]
  change (parseValue (999 + 1) _).bind _ = _
  rw [parseValue, parseValueWith_object, hobject]
  rfl

theorem makeParserInput_bareword {A : Arch} {body front back : List UInt8}
    (hlen : body.length + 3 < A.sizeBound) (h : BarewordAt body front back) :
    makeParserInput A body = .ok (quoted front back) := by
  have hsize : (quoted front back).length = body.length + 2 := by
    rw [h.eq, quoted]
    simp only [List.length_append, List.length_cons]
    omega
  have heq := @makeParserInputAt_eq A body .ample (fun _ => rfl) (by omega)
  rw [makeParserInputAt_rewrites .ample (by omega) h, terminated, if_neg (by omega),
    if_neg (by simp [Malloc.ample])] at heq
  cases hinput : makeParserInput A body with
  | error status =>
      rw [hinput] at heq
      cases heq
  | ok text =>
      rw [hinput] at heq
      obtain ⟨htext, -⟩ := Prod.mk.inj (Except.ok.inj (Option.some.inj heq))
      rw [List.append_cancel_right htext]

theorem zero_not_mem_formatInt (code : ℤ) : 0 ∉ formatInt code := by
  have hdigit : 0 ∉ decimal code.natAbs := fun h =>
    absurd ((decimal_spec code.natAbs).2.1 0 h) (by decide)
  rw [formatInt]
  split
  · simp [hdigit]
  · exact hdigit

/-- A response brings its code to the policy. -/
theorem responseResult_responseBody {A : Arch} {space : Bool} {code : ℤ} (hcode : IsInt32 code) :
    responseResult A (responseBody space code) = some code := by
  have hbound := A.two_pow_32_le_sizeBound
  have hlen := @length_responseBody_le space code hcode
  have hws : ∀ b ∈ if space then [(32 : UInt8)] else [], isWs b = true := by
    intro b hb
    split at hb
    · obtain rfl := List.mem_singleton.mp hb
      rfl
    · cases hb
  have hsplit : ascii "\x7bresult:" = ascii "\x7b" ++ ascii "result" ++ [58] := by decide +kernel
  have hne : responseBody space code ≠ [] := by
    rw [responseBody, hsplit]
    simp
  have hat : BarewordAt (responseBody space code) (ascii "\x7b")
      (58 :: ((if space then [32] else []) ++ formatInt code ++ ascii "\x7d")) := by
    refine ⟨[], [], [], _, by decide, rfl, by simp, ?_⟩
    rw [responseBody, hsplit, List.append_assoc _ [58]]
    rfl
  have hzero : (quoted (ascii "\x7b")
      (58 :: ((if space then [32] else []) ++ formatInt code ++ ascii "\x7d"))).contains 0 = false := by
    have hspace : (0 : UInt8) ∉ if space then [(32 : UInt8)] else [] := by
      cases space <;> decide
    have hfixed : (0 : UInt8) ∉ ascii "\x7b" ∧ (0 : UInt8) ∉ ascii "result" ∧
        (0 : UInt8) ∉ ascii "\x7d" := by decide
    rw [List.contains_eq_mem, decide_eq_false_iff_not, quoted]
    simp only [List.mem_append, List.mem_cons, not_or]
    simp [hfixed, hspace, zero_not_mem_formatInt]
  have hutf8 : checkUtf8 (.object [(ascii "result", .number (.finite code))]) = true := by
    have hname : utf8Validate (ascii "result") = true := by decide
    simp [checkUtf8, checkUtf8Members, hname]
  have hvalue : numberToInt32 (.number (.finite (code : ℚ))) = .ok code :=
    (numberToInt32_iff _ _).mpr (.number hcode)
  have hroot : dataResultOfRoot (.object [(ascii "result", .number (.finite code))]) = .ok code := by
    have hname : cstr (ascii "result") = ascii "result" := by decide
    simp [dataResultOfRoot, lastResult, hname, valueToInt32, hvalue]
  rw [responseResult, if_neg hne, makeParserInput_bareword (by omega) hat]
  simp only [dataResultParse, jsonParseAllowDuplicateKeys, hzero, parseText,
    parseWithOpts_response hws hcode, hutf8, hroot, Bool.false_eq_true, if_false, Bool.not_true,
    Bool.false_and]
  rfl

/-! ### A session and its channel -/

def Session.afterCalls {A : Arch} (B : Bz2) (s : Session A) (calls : List (SendCall A)) :
    Session A :=
  calls.foldl (fun s call => (s.encodeCall B call).1) s

/-- The queue item of a call that the session accepts, as request `r`. -/
def Session.itemOf {A : Arch} (B : Bz2) (s : Session A) (call : SendCall A) (r : ℕ) :
    Option QueueItem :=
  (s.encodeCall B call).2.toOption.map fun packet => Requests.makeItem r (call.args packet) packet

/-- A session behind earlier sends: its channel has done earlier jobs with a
buffer of `max_packet_size` bytes, and its policy has seen earlier completions. -/
structure Running {A : Arch} (B : Bz2) (role : Role) (config : SessionConfig A)
    (session : Session A) (ch : Channel) (p : ResultPolicy) : Prop where
  created : ∃ buf created calls, sessionCreate role config buf = .ok created ∧
    session = created.afterCalls B calls
  channel : ∃ (parseBuf : Storage A) (jobs : List Job) (ds : List Done),
    parseBuf.bytes.length = session.maxPacketSize ∧
      runWorker A (.create parseBuf.bytes) jobs = some (ch, ds)
  policy : ∃ threshold onAlert first earlier,
    ResultPolicy.create role threshold onAlert = .ok first ∧ p = completeAll A first earlier

theorem encodePacket_maxPacketSize {A : Arch} (s : Session A) (start command device config : UInt8)
    (body : Span A) :
    (s.encodePacket start command device config body).1.maxPacketSize = s.maxPacketSize := by
  unfold Session.encodePacket
  dsimp only
  split <;> rfl

theorem withPending_fst {A : Arch} (r : Session A × Except Status (List UInt8)) (malloc : Bool) :
    (Session.withPending r malloc).1 = r.1 := by
  unfold Session.withPending
  split
  · rfl
  · split <;> rfl

theorem encodeCall_maxPacketSize {A : Arch} (B : Bz2) (s : Session A) (call : SendCall A) :
    (s.encodeCall B call).1.maxPacketSize = s.maxPacketSize := by
  cases call with
  | pirin => rw [Session.encodeCall, Session.sendPirin, withPending_fst, encodePacket_maxPacketSize]
  | pirout =>
      rw [Session.encodeCall, Session.sendPirout, withPending_fst, encodePacket_maxPacketSize]
  | relay payload =>
      rw [Session.encodeCall, Session.relayRknnResult]
      split
      · rfl
      split
      · rfl
      · exact encodePacket_maxPacketSize ..
  | data payload mic m =>
      rw [Session.encodeCall, Session.sendData]
      split
      · rfl
      split
      · rfl
      split
      · rfl
      split
      · rfl
      · rw [withPending_fst, encodePacket_maxPacketSize]

theorem afterCalls_maxPacketSize {A : Arch} (B : Bz2) (s : Session A) (calls : List (SendCall A)) :
    (s.afterCalls B calls).maxPacketSize = s.maxPacketSize := by
  induction calls generalizing s with
  | nil => rfl
  | cons call calls ih => exact (ih _).trans (encodeCall_maxPacketSize B s call)

section Running

variable {A : Arch} {B : Bz2} {role : Role} {config : SessionConfig A} {session : Session A}
  {ch : Channel} {p : ResultPolicy}

/-- The buffer of the parser holds a header and the longest body that is sent. -/
theorem Running.good (h : Running B role config session ch p) :
    ch.Good A (packetHeaderLen + bodySize role config.compress config.maxPayloadSize) := by
  obtain ⟨buf, created, calls, hcreate, hsession⟩ := h.created
  obtain ⟨parseBuf, jobs, ds, hparse, hrun⟩ := h.channel
  have hgood := runWorker_good (.create parseBuf) hrun
  have hmax : created.maxPacketSize =
      packetHeaderLen + bodySize role config.compress config.maxPayloadSize := by
    unfold sessionCreate at hcreate
    split at hcreate
    · cases hcreate
    next capacity hcap =>
    split at hcreate
    · cases hcreate
    split at hcreate
    · obtain rfl := Except.ok.inj hcreate
      exact (capacity_ok config.maxPayloadSize_lt hcap).1
    · cases hcreate
  rwa [hparse, hsession, afterCalls_maxPacketSize, hmax] at hgood

end Running

/-! ### Responses -/

/-- A packet with the command `R`, a body and the checksum of that body. -/
structure IsResponse (xs body : List UInt8) : Prop where
  size : packetSize xs = xs.length
  command : (frontPacket xs).header.command = wireCmdResponse
  data : (frontPacket xs).data = body
  crc : (frontPacket xs).header.crc32 = crc32 body

/-- A data send that completes with a response: the callback reports it, and the
policy is fed the code. -/
structure Usable (A : Arch) (p : ResultPolicy) (code : ℤ) (r : TcpResult) : Prop where
  ok : (onDataComplete A p r).ok = true
  command : (onDataComplete A p r).command = wireCmdResponse
  fed : ((onDataComplete A p r).policy, (onDataComplete A p r).alerts) = p.onResult code
  stream : p.role = .stream → (onDataComplete A p r).policy.dangerCount =
    if code = 4 then 0 else p.dangerCount + 1
  voice : p.role = .voice → (onDataComplete A p r).alerts = if code = 4 then [] else p.alert 86

theorem IsResponse.length_eq {xs body : List UInt8} (h : IsResponse xs body) :
    xs.length = packetHeaderLen + body.length := by
  have hdata : slice xs packetHeaderLen (packetSize xs) = body := h.data
  have hhdr := packetHeaderLen_le_packetSize xs
  rw [← hdata, slice, List.length_drop, List.length_take, h.size, Nat.min_self]
  rw [h.size] at hhdr
  omega

theorem IsResponse.usable {A : Arch} {xs : List UInt8} {space : Bool} {code : ℤ}
    (h : IsResponse xs (responseBody space code)) (hcode : IsInt32 code) (p : ResultPolicy) :
    Usable A p code (.ofPacket (frontPacket xs)) := by
  have hcrc : (TcpResult.ofPacket (frontPacket xs)).crcValid = true := by
    simp [TcpResult.ofPacket, h.data, h.crc]
  have hstatus : (TcpResult.ofPacket (frontPacket xs)).status = .ok := rfl
  have hcommand : (TcpResult.ofPacket (frontPacket xs)).command = wireCmdResponse := h.command
  have hdata : (TcpResult.ofPacket (frontPacket xs)).data = responseBody space code := h.data
  have heffect : onDataComplete A p (.ofPacket (frontPacket xs)) =
      ⟨(p.onResult code).1, (p.onResult code).2, true, wireCmdResponse, (p.onResult code).1⟩ := by
    simp only [onDataComplete, hstatus, hcommand, hcrc, hdata, reportedCommand,
      ResultPolicy.onResponse, Option.bind_some, responseResult_responseBody hcode, if_true,
      and_self, decide_true, Bool.and_self]
  refine ⟨?_, ?_, ?_, fun hrole => ?_, fun hrole => ?_⟩
  · rw [heffect]
  · rw [heffect]
  · rw [heffect]
  · rw [heffect]
    simp only [ResultPolicy.onResult, hrole]
    split <;> rfl
  · rw [heffect]
    simp only [ResultPolicy.onResult, hrole]

theorem not_usable_failed {A : Arch} (p : ResultPolicy) (code : ℤ) (status : TcpStatus)
    (hstatus : status ≠ .ok) : ¬ Usable A p code (.failed status) := by
  intro h
  have hok := h.ok
  simp [onDataComplete, TcpResult.failed, hstatus] at hok

theorem kind_of_itemOf {A : Arch} {B : Bz2} {s : Session A} {call : SendCall A} {r : ℕ}
    {item : QueueItem} (h : s.itemOf B call r = some item) :
    ∃ packet, item.kind = (call.args packet).kind := by
  obtain ⟨packet, -, rfl⟩ := Option.map_eq_some_iff.mp h
  exact ⟨packet, rfl⟩

/-- A response within the longest packet of the session. -/
theorem fits_iff {role : Role} {compress : ℤ} {n : ℕ} {space : Bool} {code : ℤ}
    (hcode : IsInt32 code) :
    (responseBody space code).length ≤ bodySize role compress n ↔
      role = .voice ∨ compress = 1 ∨ (responseBody space code).length ≤ n := by
  have hlen := @length_responseBody_le space code hcode
  unfold bodySize
  by_cases hcompress : compress = 1
  · rw [if_pos hcompress]
    exact iff_of_true (by omega) (.inr (.inl hcompress))
  · rw [if_neg hcompress]
    cases role with
    | voice =>
        have hwav : roleSize .voice n = n + 44 := rfl
        exact iff_of_true (by omega) (.inl rfl)
    | stream => simp [roleSize, hcompress]

/-- The response to a data send is used if and only if the session is a Voice
session, or compresses, or accepts payloads of the length of the response: the
buffer for responses is the one for the packets of the session. -/
theorem response_usable_iff {A : Arch} {B : Bz2} {role : Role} {config : SessionConfig A}
    {session : Session A} {ch : Channel} {p : ResultPolicy}
    (hrunning : Running B role config session ch p) {payload : Span A} {mic : Int16}
    {m : SendMemory} {r : ℕ} {item : QueueItem}
    (hitem : session.itemOf B (.data payload mic m) r = some item) {env : ItemEnv} {base : Channel}
    {cs : List (List UInt8)} {xs : List UInt8} (harrives : Arrives ch item env base cs xs)
    {space : Bool} {code : ℤ} (hcode : IsInt32 code)
    (hresponse : IsResponse xs (responseBody space code)) :
    (∃ d, processItem A ch item env = some d ∧ Usable A p code d.result) ↔
      role = .voice ∨ config.compress = 1 ∨
        (responseBody space code).length ≤ config.maxPayloadSize := by
  obtain ⟨packet, hkind⟩ := kind_of_itemOf hitem
  obtain ⟨d, hd, hresult⟩ := harrives.result hrunning.good hkind
  have hreach : reach (packetSize xs) base.parser.unread.length cs = xs.length := by
    have hall : base.parser.unread.length + cs.flatten.length = xs.length := by
      rw [← List.length_append, harrives.stream]
    have hle := reach_le (packetSize xs) base.parser.unread.length cs
    have hge : packetSize xs ≤ reach (packetSize xs) base.parser.unread.length cs :=
      size_le_reach (by rw [hall]; exact harrives.complete)
    rw [hresponse.size] at hge hle ⊢
    omega
  rw [hreach, hresponse.length_eq] at hresult
  simp only [Nat.add_le_add_iff_left] at hresult
  rw [← fits_iff hcode]
  constructor
  · rintro ⟨d', hd', husable⟩
    obtain rfl := Option.some.inj (hd.symm.trans hd')
    by_contra hlong
    rw [hresult, if_neg hlong] at husable
    exact not_usable_failed p code .protocol (by simp) husable
  · intro hfits
    rw [if_pos hfits] at hresult
    refine ⟨d, hd, ?_⟩
    rw [hresult]
    exact hresponse.usable hcode p

/-! ### The echo of a PIRIN -/

def StartsWithEcho (xs : List UInt8) : Prop :=
  (frontPacket xs).header.command = wireCmdPirin ∧ (frontPacket xs).data = []

instance (xs : List UInt8) : Decidable (StartsWithEcho xs) := inferInstanceAs (Decidable (_ ∧ _))

/-- A PIRIN that is not answered is reported as failed, and the policy is left
alone. -/
structure Unanswered (p : ResultPolicy) (e : CompletionEffect) : Prop where
  ok : e.ok = false
  policy : e.policy = p
  found : e.found = p
  command : e.command = 0

/-- A PIRIN is accepted, with the counter reset before `on_sent` is called, exactly
on an echo at the start of the stream; the command that is reported is that of the first packet, if it was
received. -/
structure Acknowledged (p : ResultPolicy) (xs : List UInt8) (r : TcpResult) : Prop where
  ok : (onPirinComplete p r).ok = true ↔ StartsWithEcho xs
  policy : (onPirinComplete p r).policy = if StartsWithEcho xs then p.reset else p
  found : (onPirinComplete p r).found = if StartsWithEcho xs then p.reset else p
  received : r.status = .ok →
    (onPirinComplete p r).command = (frontPacket xs).header.command
  failed : r.status ≠ .ok → Unanswered p (onPirinComplete p r)

theorem unanswered_of_status {p : ResultPolicy} {r : TcpResult} (h : r.status ≠ .ok) :
    Unanswered p (onPirinComplete p r) := by
  have hok : (decide (r.status = .ok) && decide (r.command = wireCmdPirin)) = false := by
    simp [h]
  have hpolicy : (onPirinComplete p r).policy = p := by
    simp only [onPirinComplete, hok, Bool.false_eq_true, if_false]
  exact ⟨hok, hpolicy, hpolicy, if_neg h⟩

/-- Every packet with the command `I` is taken for an echo. -/
theorem onPirinComplete_packet (p : ResultPolicy) (pk : Packet) :
    onPirinComplete p (.ofPacket pk) =
      ⟨if pk.header.command = wireCmdPirin then p.reset else p, [],
        decide (pk.header.command = wireCmdPirin), pk.header.command,
        if pk.header.command = wireCmdPirin then p.reset else p⟩ := by
  by_cases h : pk.header.command = wireCmdPirin
  · simp [onPirinComplete, TcpResult.ofPacket, reportedCommand, h]
  · simp [onPirinComplete, TcpResult.ofPacket, reportedCommand, h]

theorem acknowledged_packet_iff (p : ResultPolicy) (xs : List UInt8) :
    Acknowledged p xs (.ofPacket (frontPacket xs)) ↔
      ((frontPacket xs).header.command = wireCmdPirin → (frontPacket xs).data = []) := by
  constructor
  · intro h hcommand
    have hok := h.ok
    rw [onPirinComplete_packet, decide_eq_true hcommand] at hok
    exact (hok.mp rfl).2
  · intro h
    have hecho : StartsWithEcho xs ↔ (frontPacket xs).header.command = wireCmdPirin :=
      ⟨And.left, fun hcommand => ⟨hcommand, h hcommand⟩⟩
    have hpolicy : (onPirinComplete p (.ofPacket (frontPacket xs))).policy =
        if StartsWithEcho xs then p.reset else p := by
      rw [onPirinComplete_packet]
      simp only [hecho]
    refine ⟨?_, hpolicy, hpolicy, fun _ => ?_, fun hstatus => absurd rfl hstatus⟩
    · rw [onPirinComplete_packet, hecho, decide_eq_true_iff]
    · rw [onPirinComplete_packet]

theorem acknowledged_failed_iff (p : ResultPolicy) (xs : List UInt8) {status : TcpStatus}
    (hstatus : status ≠ .ok) :
    Acknowledged p xs (.failed status) ↔ ¬ StartsWithEcho xs := by
  have hun : Unanswered p (onPirinComplete p (.failed status)) := unanswered_of_status hstatus
  constructor
  · intro h hecho
    have hok := h.ok.mpr hecho
    rw [hun.ok] at hok
    cases hok
  · intro hecho
    refine ⟨?_, ?_, ?_, fun h => absurd h hstatus, fun _ => hun⟩
    · rw [hun.ok]
      exact iff_of_false Bool.false_ne_true hecho
    · rw [hun.policy, if_neg hecho]
    · rw [hun.found, if_neg hecho]

/-- A PIRIN is acknowledged as it should be if and only if the first packet does
not have the command `I`, or its body is empty and it arrives within the buffer,
or its body is not empty and it does not. Whatever else happens on the channel is
reported as a failure. -/
theorem pirin_acknowledged_iff {A : Arch} {B : Bz2} {role : Role} {config : SessionConfig A}
    {session : Session A} {ch : Channel} {p : ResultPolicy}
    (hrunning : Running B role config session ch p) {r : ℕ} {item : QueueItem}
    (hitem : session.itemOf B .pirin r = some item) :
    (∀ env d, processItem A ch item env = some d → d.result.status ≠ .ok →
        Unanswered p (onPirinComplete p d.result)) ∧
      ∀ env base cs xs, Arrives ch item env base cs xs →
        ((∃ d, processItem A ch item env = some d ∧ Acknowledged p xs d.result) ↔
          ((frontPacket xs).header.command = wireCmdPirin →
            ((frontPacket xs).data = [] ↔
              reach (packetSize xs) base.parser.unread.length cs ≤
                packetHeaderLen + bodySize role config.compress config.maxPayloadSize))) := by
  obtain ⟨packet, hkind⟩ := kind_of_itemOf hitem
  refine ⟨fun env d _ hstatus => unanswered_of_status hstatus, ?_⟩
  intro env base cs xs harrives
  obtain ⟨d, hd, hresult⟩ := harrives.result hrunning.good hkind
  have hiff : (∃ d, processItem A ch item env = some d ∧ Acknowledged p xs d.result) ↔
      Acknowledged p xs d.result := by
    simp [hd]
  rw [hiff, hresult]
  split
  · next hfits =>
      rw [acknowledged_packet_iff]
      simp only [hfits, iff_true]
  · next hover =>
      rw [acknowledged_failed_iff p xs (by simp), StartsWithEcho]
      simp only [hover, iff_false, not_and]

/-! ### A session for short payloads -/

/-- A Stream session without compression for payloads of at most `n` bytes. -/
def plainConfig (n : Fin 64) : SessionConfig .lp64 :=
  ⟨0, n, List.replicate 14 48, by decide, lt_of_lt_of_le n.isLt (by decide)⟩

def plainSession (n : Fin 64) : Session .lp64 where
  role := .stream
  compress := 0
  maxPayloadSize := n
  deviceSerial := List.replicate 14 48
  encodeBuf := List.replicate (26 + n) 0
  maxPacketSize := 26 + n
  serial_length := by decide
  encodeBuf_lt := by
    have hbound : 26 + 64 ≤ Arch.lp64.sizeBound := by decide
    rw [List.length_replicate]
    omega

def byteCall : SendCall .lp64 := .data (blockOf [1]) 0 ⟨true, .enough, true⟩

def byteItem : QueueItem := ⟨packetBytes 83 83 0 0 (List.replicate 14 48) [1], 3000, .normal, 0⟩

/-- The server connects at once, takes the packet of `sent` bytes in one piece and
sends `bytes`. -/
def serverEnv (sent : ℕ) (bytes : List UInt8) : ItemEnv where
  addresses := some [⟨true, none, [], false, false⟩]
  send := [⟨false, .ready false, .ok sent⟩]
  recv := [⟨false, 1000, .ready false, .ok bytes⟩]
  closeSession := false

def normalReply : List UInt8 := packetBytes 83 82 0 0 (List.replicate 14 48) (responseBody false 4)

theorem plainSession_running (n : Fin 64) :
    Running storingCodec.library .stream (plainConfig n) (plainSession n)
      (Channel.create (List.replicate (26 + n) 0)) secondDanger where
  created := by
    have hcap : calculateEncodedPacketCapacity .lp64 .stream (plainConfig n).compress
        (plainConfig n).maxPayloadSize = .ok (26 + n) := by
      revert n
      decide
    have hmax : 26 + (n : ℕ) ≤ (Arch.lp64.sizeBound - 1) / 2 := by
      have hbound : 26 + 64 ≤ (Arch.lp64.sizeBound - 1) / 2 := by decide
      omega
    refine ⟨some (List.replicate (26 + n) 0), plainSession n, [], ?_, rfl⟩
    rw [sessionCreate, hcap]
    exact dif_pos ⟨List.length_replicate, hmax⟩
  channel := ⟨⟨List.replicate (26 + n) 0, (plainSession n).encodeBuf_lt⟩, [], [],
    List.length_replicate, rfl⟩
  policy := ⟨2, true, secondDanger, [], rfl, rfl⟩

theorem normalReply_response : IsResponse normalReply (responseBody false 4) where
  size := by decide +kernel
  command := by decide +kernel
  data := by decide +kernel
  crc := by decide +kernel

theorem arrives_serverEnv {ch : Channel} {item : QueueItem} {bytes : List UInt8}
    (hnone : ch.sockfd = none) (hsize : packetSize bytes ≤ bytes.length)
    (hchunk : bytes.length ≤ recvChunk) :
    Arrives ch item (serverEnv item.packet.length bytes) ch.opened [bytes] bytes where
  connects := .fresh hnone (by simp [tryConnect, serverEnv, addressLoop])
  sent := by
    simp only [sendAll, serverEnv, sendLoop]
    split
    · rfl
    · simp
  recv := by
    have hpos : 1 ≤ bytes.length :=
      le_trans (le_trans (by decide) (packetHeaderLen_le_packetSize bytes)) hsize
    refine ⟨_, [], (List.append_nil _).symm, ?_, rfl⟩
    intro t ht
    obtain rfl := List.mem_singleton.mp ht
    exact ⟨rfl, show 0 < 1000 by decide, hpos, hchunk⟩
  stream := by
    have hempty : ch.opened.parser.unread = [] := StreamParser.unread_init _
    rw [hempty]
    simp
  complete := hsize

theorem response_usable_iff_ten :
    ∃ d, processItem .lp64 (Channel.create (List.replicate 36 0)) byteItem
        (serverEnv byteItem.packet.length normalReply) = some d ∧
      Usable .lp64 secondDanger 4 d.result := by
  have hitem : (plainSession 10).itemOf storingCodec.library byteCall 0 = some byteItem := by
    decide +kernel
  exact (response_usable_iff (plainSession_running 10) hitem
    (arrives_serverEnv rfl (by decide +kernel) (by decide +kernel)) ⟨by decide, by decide⟩
    normalReply_response).mpr (.inr (.inr (by decide)))

/-- With payloads of at most nine bytes the response is dropped. -/
theorem response_dropped_nine :
    Running storingCodec.library .stream (plainConfig 9) (plainSession 9)
        (Channel.create (List.replicate 35 0)) secondDanger ∧
      (plainSession 9).itemOf storingCodec.library byteCall 0 = some byteItem ∧
      Arrives (Channel.create (List.replicate 35 0)) byteItem
        (serverEnv byteItem.packet.length normalReply)
        (Channel.create (List.replicate 35 0)).opened [normalReply] normalReply ∧
      IsResponse normalReply (responseBody false 4) ∧
      (processItem .lp64 (Channel.create (List.replicate 35 0)) byteItem
        (serverEnv byteItem.packet.length normalReply)).map (·.result) =
          some (.failed .protocol) ∧
      ¬ Usable .lp64 secondDanger 4 (.failed .protocol) :=
  ⟨plainSession_running 9, by decide +kernel,
    arrives_serverEnv rfl (by decide +kernel) (by decide +kernel), normalReply_response,
    by decide +kernel, not_usable_failed _ _ _ (by decide)⟩

def pirinItem : QueueItem := ⟨packetBytes 83 73 0 0 (List.replicate 14 48) [], 3000, .normal, 0⟩

def echoOf (body : List UInt8) : List UInt8 := packetBytes 83 73 0 0 (List.replicate 14 48) body

theorem pirin_acknowledged_iff_empty :
    ∃ d, processItem .lp64 (Channel.create (List.replicate 35 0)) pirinItem
        (serverEnv pirinItem.packet.length (echoOf [])) = some d ∧
      Acknowledged secondDanger (echoOf []) d.result := by
  have hitem : (plainSession 9).itemOf storingCodec.library .pirin 0 = some pirinItem := by
    decide +kernel
  refine ((pirin_acknowledged_iff (plainSession_running 9) hitem).2 _ _ _ _
    (arrives_serverEnv rfl (by decide +kernel) (by decide +kernel))).mpr fun _ => ?_
  exact iff_of_true (by decide +kernel) (by decide +kernel)

def oneDanger : ResultPolicy :=
  completeAll .lp64 secondDanger [answered .data "\x7bresult:7\x7d"]

/-- An echo with a body of one byte is accepted, and clears the counter. -/
theorem pirin_accepted_with_body :
    Running storingCodec.library .stream (plainConfig 9) (plainSession 9)
        (Channel.create (List.replicate 35 0)) oneDanger ∧
      (plainSession 9).itemOf storingCodec.library .pirin 0 = some pirinItem ∧
      Arrives (Channel.create (List.replicate 35 0)) pirinItem
        (serverEnv pirinItem.packet.length (echoOf [1]))
        (Channel.create (List.replicate 35 0)).opened [echoOf [1]] (echoOf [1]) ∧
      ¬ StartsWithEcho (echoOf [1]) ∧ oneDanger.dangerCount = 1 ∧
      (processItem .lp64 (Channel.create (List.replicate 35 0)) pirinItem
        (serverEnv pirinItem.packet.length (echoOf [1]))).map (fun d =>
          ((onPirinComplete oneDanger d.result).ok,
            (onPirinComplete oneDanger d.result).policy.dangerCount)) = some (true, 0) := by
  have hrunning := plainSession_running 9
  refine ⟨⟨hrunning.created, hrunning.channel, ?_⟩, by decide +kernel,
    arrives_serverEnv rfl (by decide +kernel) (by decide +kernel), by decide +kernel,
    by decide +kernel, by decide +kernel⟩
  exact ⟨2, true, secondDanger, [answered .data "\x7bresult:7\x7d"], rfl, rfl⟩

end Savvy.Stream
