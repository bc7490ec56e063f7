import Savvy.Tcp.Worker

/-!
How the network cuts and coalesces the inbound stream. A chunk of up to
`recvChunk` bytes is pushed whole into a buffer of `max_packet_size` bytes, so
requests are answered whatever the cutting exactly as long as no chunk reaches
further than the buffer beyond the packet boundary before it.
-/

namespace Savvy.Tcp

open Kit

variable {A : Arch}

/-! ### The inbound stream -/

/-- The bytes of one packet on the wire, of at most `cap` bytes in total. -/
structure WirePacket (cap : ℕ) where
  bytes : List UInt8
  header_le : packetHeaderLen ≤ bytes.length
  size_eq : packetSize bytes = bytes.length
  length_le : bytes.length ≤ cap

def WirePacket.result {cap : ℕ} (w : WirePacket cap) : TcpResult := .ofPacket (frontPacket w.bytes)

def stream {cap : ℕ} (ws : List (WirePacket cap)) : List UInt8 := (ws.map (·.bytes)).flatten

/-- A turn without stop, timeout, error or end of stream. -/
def RecvTurn.Quiet (t : RecvTurn) : Prop :=
  t.stopRequested = false ∧ 0 < t.remainingMs ∧
    match t.poll with
    | .error e => e = .eintr
    | .timeout => True
    | .ready _ =>
        match t.recv with
        | .error e => e = .eintr ∨ e = .eagain
        | .ok bytes => 1 ≤ bytes.length ∧ bytes.length ≤ recvChunk

def RecvTurn.chunk (t : RecvTurn) : Option (List UInt8) :=
  match t.poll, t.recv with
  | .ready _, .ok bytes => some bytes
  | _, _ => none

def chunks (ts : List RecvTurn) : List (List UInt8) := ts.filterMap RecvTurn.chunk

def lastBoundary : List ℕ → ℕ → ℕ
  | [], _ => 0
  | s :: ss, pos => if s ≤ pos then s + lastBoundary ss (pos - s) else 0

/-- From position `pos` on, no chunk reaches more than `cap` bytes beyond the
packet boundary before it. -/
def Fits (cap : ℕ) (sizes : List ℕ) : ℕ → List (List UInt8) → Prop
  | _, [] => True
  | pos, c :: cs =>
      pos + c.length ≤ lastBoundary sizes pos + cap ∧ Fits cap sizes (pos + c.length) cs

/-- A packet that was taken out shifts the position. -/
theorem fits_shift {cap s pos : ℕ} {ss : List ℕ} {cs : List (List UInt8)} (h : s ≤ pos) :
    Fits cap (s :: ss) pos cs ↔ Fits cap ss (pos - s) cs := by
  induction cs generalizing pos with
  | nil => exact Iff.rfl
  | cons c cs ih =>
      have hpos : pos + c.length - s = pos - s + c.length := by omega
      have hle : s ≤ pos + c.length := by omega
      have hrest := ih hle
      rw [hpos] at hrest
      simp only [Fits, lastBoundary, if_pos h, hrest]
      refine and_congr_left fun _ => ?_
      omega

/-- While the first packet is incomplete a chunk just has to fit behind it. -/
theorem fits_cons {cap s pos : ℕ} {ss : List ℕ} {c : List UInt8} {cs : List (List UInt8)}
    (h : pos < s) :
    Fits cap (s :: ss) pos (c :: cs) ↔
      pos + c.length ≤ cap ∧ Fits cap (s :: ss) (pos + c.length) cs := by
  simp [Fits, lastBoundary, Nat.not_le.mpr h]

/-- What the parser sees of a stream that starts with the packet `w`. -/
theorem WirePacket.scan {cap : ℕ} (w : WirePacket cap) {xs zs rest : List UInt8}
    (h : xs ++ zs = w.bytes ++ rest) :
    (xs.length < w.bytes.length ∧ packetScan cap xs = .more) ∨
      (w.bytes.length ≤ xs.length ∧
        packetScan cap xs = .frame (frontPacket w.bytes) w.bytes.length) := by
  have hhdr := w.header_le
  have hcap := w.length_le
  have hsize (hxs : packetHeaderLen ≤ xs.length) : packetSize xs = w.bytes.length := by
    calc
      packetSize xs = packetSize (xs ++ zs) := (packetSize_append hxs).symm
      _ = packetSize (w.bytes ++ rest) := by rw [h]
      _ = w.bytes.length := by rw [packetSize_append hhdr, w.size_eq]
  rcases Nat.lt_or_ge xs.length w.bytes.length with hlt | hle
  · refine .inl ⟨hlt, ?_⟩
    by_cases hxs : xs.length < packetHeaderLen
    · exact if_pos hxs
    · have hs := hsize (by omega)
      rw [packetScan, if_neg hxs, if_neg (by omega), if_pos (by omega)]
  · have hs := hsize (by omega)
    refine .inr ⟨hle, packetScan_eq_frame.mpr ⟨by omega, by omega, ?_, hs.symm⟩⟩
    have hfront : frontPacket (xs ++ zs) = frontPacket (w.bytes ++ rest) := congrArg _ h
    rw [frontPacket_append (by omega), frontPacket_append w.size_eq.le] at hfront
    exact hfront.symm

/-! ### Waiting on a quiet connection -/

/-- How a wait for the packet `w` ends when nothing but data arrives, `rest`
being the stream behind the packet: it is answered and the condition carries
over to what is left, or a chunk did not fit. -/
inductive QuietResponse (A : Arch) {cap : ℕ} (w : WirePacket cap) (ss : List ℕ)
    (fits : Prop) (rest : List UInt8) : Response → Prop
  | answered {q : StreamParser} {received : List UInt8} {ts : List RecvTurn} (hwf : q.WF A)
      (hcap : q.bufCap = cap) (hquiet : ∀ t ∈ ts, t.Quiet)
      (hstream : q.unread ++ (chunks ts).flatten = rest)
      (hfits : fits ↔ Fits cap ss q.unread.length (chunks ts)) :
      QuietResponse A w ss fits rest ⟨.ok, some (frontPacket w.bytes), q, received, ts⟩
  | overrun {q : StreamParser} {received : List UInt8} {ts : List RecvTurn} (h : ¬ fits) :
      QuietResponse A w ss fits rest ⟨.protocol, none, q, received, ts⟩

section Quiet

variable {cap : ℕ} {rest : List UInt8}

/-- Reading from a stream that starts with the packet `w`. -/
theorem ReadSpec.quiet {xs : List UInt8} {res : Option (TcpStatus × Option Packet) × StreamParser}
    {ts : List RecvTurn} (w : WirePacket cap) (ss : List ℕ) (received : List UInt8) (hread : ReadSpec A cap xs res)
    (hquiet : ∀ t ∈ ts, t.Quiet) (hstream : xs ++ (chunks ts).flatten = w.bytes ++ rest) :
    (xs.length < w.bytes.length ∧ ∃ q, res = (none, q) ∧ q.WF A ∧ q.bufCap = cap ∧
        q.unread = xs) ∨
      ∃ q, res = (some (.ok, some (frontPacket w.bytes)), q) ∧
        QuietResponse A w ss (Fits cap (w.bytes.length :: ss) xs.length (chunks ts)) rest
          ⟨.ok, some (frontPacket w.bytes), q, received, ts⟩ := by
  have hscan := w.scan hstream
  cases hread with
  | more hwf hcap hmore hunread =>
      rcases hscan with ⟨hlt, -⟩ | ⟨-, hframe⟩
      · exact .inl ⟨hlt, _, rfl, hwf, hcap, hunread⟩
      · exact absurd (hmore.symm.trans hframe) (by simp)
  | bad _ _ hbad =>
      rcases hscan with ⟨-, hmore⟩ | ⟨-, hframe⟩
      · exact absurd (hbad.symm.trans hmore) (by simp)
      · exact absurd (hbad.symm.trans hframe) (by simp)
  | @packet q pk n hwf hcap hframe hunread =>
      rcases hscan with ⟨-, hmore⟩ | ⟨hle, hframe'⟩
      · exact absurd (hframe.symm.trans hmore) (by simp)
      · obtain ⟨rfl, rfl⟩ := Scan.frame.inj (hframe.symm.trans hframe')
        refine .inr ⟨q, rfl, .answered hwf hcap hquiet ?_ ?_⟩
        · rw [hunread, ← List.drop_append_of_le_length hle, hstream, List.drop_left]
        · rw [hunread, List.length_drop]
          exact fits_shift hle

theorem chunks_cons_of_none {t : RecvTurn} {ts : List RecvTurn} (h : t.chunk = none) :
    chunks (t :: ts) = chunks ts := by
  rw [chunks, List.filterMap_cons, h]
  rfl

theorem chunks_cons_of_some {t : RecvTurn} {ts : List RecvTurn} {bytes : List UInt8}
    (h : t.chunk = some bytes) : chunks (t :: ts) = bytes :: chunks ts := by
  rw [chunks, List.filterMap_cons, h]
  rfl

theorem RecvTurn.Quiet.chunk_length {t : RecvTurn} (h : t.Quiet) {bytes : List UInt8}
    (hchunk : t.chunk = some bytes) : 1 ≤ bytes.length := by
  obtain ⟨stop, remaining, poll, recv⟩ := t
  cases poll with
  | error _ => cases hchunk
  | timeout => cases hchunk
  | ready _ =>
      cases recv with
      | error _ => cases hchunk
      | ok bytes' =>
          obtain rfl := Option.some.inj hchunk
          exact h.2.2.1

theorem chunks_eq_nil {ts : List RecvTurn} (h : ∀ t ∈ ts, t.Quiet)
    (hflat : (chunks ts).flatten = []) : chunks ts = [] := by
  rw [chunks, List.filterMap_eq_nil_iff]
  intro t ht
  cases hchunk : t.chunk with
  | none => rfl
  | some bytes =>
      have hlen := (h t ht).chunk_length hchunk
      have hmem : bytes ∈ chunks ts := List.mem_filterMap.mpr ⟨t, ht, hchunk⟩
      obtain rfl := List.flatten_eq_nil_iff.mp hflat bytes hmem
      simp at hlen

/-- A quiet turn that brings nothing is skipped, and one that brings bytes
pushes them. -/
theorem waitLoop_quiet_cons {t : RecvTurn} (h : t.Quiet) (p : StreamParser)
    (received : List UInt8) (ts : List RecvTurn) :
    (t.chunk = none ∧ waitLoop A p received (t :: ts) = waitLoop A p received ts) ∨
      ∃ bytes, t.chunk = some bytes ∧ waitLoop A p received (t :: ts) =
        match pushAndExtract A p bytes with
        | (some (status, packet), q) => some ⟨status, packet, q, received ++ bytes, ts⟩
        | (none, q) => waitLoop A q (received ++ bytes) ts := by
  obtain ⟨stop, remaining, poll, recv⟩ := t
  obtain ⟨hstop, hpos, hturn⟩ := h
  obtain rfl : stop = false := hstop
  have hne : ¬ remaining = 0 := Nat.pos_iff_ne_zero.mp hpos
  cases poll with
  | error e =>
      obtain rfl : e = .eintr := hturn
      exact .inl ⟨rfl, by simp [waitLoop, hne]⟩
  | timeout => exact .inl ⟨rfl, by simp [waitLoop, hne]⟩
  | ready _ =>
      cases recv with
      | error e =>
          have he : e = .eintr ∨ e = .eagain := hturn
          exact .inl ⟨rfl, by simp [waitLoop, hne, he]⟩
      | ok bytes =>
          have hb : 1 ≤ bytes.length ∧ bytes.length ≤ recvChunk := hturn
          have hb' : ¬ bytes = [] := by
            rintro rfl
            simp at hb
          refine .inr ⟨bytes, rfl, ?_⟩
          rcases hpush : pushAndExtract A p bytes with ⟨_ | ⟨status, packet⟩, q⟩
          · simp [waitLoop, hne, hb', hpush]
          · simp [waitLoop, hne, hb', hpush]

theorem waitLoop_quiet {p : StreamParser} {received : List UInt8} {ts : List RecvTurn}
    {w : WirePacket cap} {ss : List ℕ}
    (hwf : p.WF A) (hcap : p.bufCap = cap) (hquiet : ∀ t ∈ ts, t.Quiet)
    (hstream : p.unread ++ (chunks ts).flatten = w.bytes ++ rest)
    (hlt : p.unread.length < w.bytes.length) :
    ∃ r, waitLoop A p received ts = some r ∧
      QuietResponse A w ss (Fits cap (w.bytes.length :: ss) p.unread.length (chunks ts)) rest
        r := by
  induction ts generalizing p received with
  | nil =>
      have hlen := congrArg List.length hstream
      simp only [chunks, List.filterMap_nil, List.flatten_nil, List.append_nil,
        List.length_append] at hlen
      omega
  | cons t ts ih =>
      obtain ⟨ht, hquiet'⟩ := List.forall_mem_cons.mp hquiet
      obtain ⟨hchunk, hloop⟩ | ⟨bytes, hchunk, hloop⟩ := waitLoop_quiet_cons (A := A) ht p received ts
      · rw [hloop, chunks_cons_of_none hchunk]
        rw [chunks_cons_of_none hchunk] at hstream
        exact ih hwf hcap hquiet' hstream hlt
      · rw [chunks_cons_of_some hchunk, List.flatten_cons, ← List.append_assoc] at hstream
        rw [hloop, chunks_cons_of_some hchunk]
        obtain ⟨hle, hread⟩ | ⟨hover, q, hres, -, -⟩ := pushAndExtract_spec hwf bytes
        · rw [hcap] at hread
          have hfits : Fits cap (w.bytes.length :: ss) p.unread.length (bytes :: chunks ts) ↔
              Fits cap (w.bytes.length :: ss) (p.unread ++ bytes).length (chunks ts) := by
            rw [fits_cons hlt, List.length_append, and_iff_right (hcap ▸ hle)]
          rw [hfits]
          obtain ⟨hshort, q, hres, hqwf, hqcap, hq⟩ | ⟨q, hres, hans⟩ :=
            hread.quiet w ss (received ++ bytes) hquiet' hstream
          · rw [hres, ← hq]
            exact ih hqwf hqcap hquiet' (by rw [hq]; exact hstream) (by rw [hq]; exact hshort)
          · rw [hres]
            exact ⟨_, rfl, hans⟩
        · rw [hres]
          refine ⟨_, rfl, .overrun fun hfits => ?_⟩
          have := ((fits_cons hlt).mp hfits).1
          omega

theorem waitForResponse_quiet {p : StreamParser} {ts : List RecvTurn} {w : WirePacket cap}
    (ss : List ℕ) (hwf : p.WF A)
    (hcap : p.bufCap = cap) (hquiet : ∀ t ∈ ts, t.Quiet)
    (hstream : p.unread ++ (chunks ts).flatten = w.bytes ++ rest) :
    ∃ r, waitForResponse A p ts = some r ∧
      QuietResponse A w ss (Fits cap (w.bytes.length :: ss) p.unread.length (chunks ts)) rest
        r := by
  have hread := extractResponse_spec hwf
  rw [hcap] at hread
  unfold waitForResponse
  obtain ⟨hshort, q, hres, hqwf, hqcap, hq⟩ | ⟨q, hres, hans⟩ :=
    hread.quiet w ss [] hquiet hstream
  · rw [hres, ← hq]
    exact waitLoop_quiet hqwf hqcap hquiet (by rw [hq]; exact hstream) (by rw [hq]; exact hshort)
  · rw [hres]
    exact ⟨_, rfl, hans⟩

end Quiet

/-! ### Successive requests -/

structure Request where
  item : QueueItem
  send : List SendTurn
  normal : item.kind = .normal
  sent : sendAll item.packet send = some .ok

variable (A) in
def serve : Channel → List Request → List RecvTurn → Option (List TcpResult)
  | _, [], _ => some []
  | ch, q :: qs, ts =>
      (processItem A ch q.item ⟨none, q.send, ts, false⟩).bind fun p =>
        (serve p.channel qs p.rest).map (p.result :: ·)

/-- On an open connection a request is answered with what the wait returns. -/
theorem processItem_answered {ch : Channel} (hopen : ch.sockfd ≠ none) (q : Request)
    {ts rest : List RecvTurn} {pk : Packet} {parser : StreamParser} {received : List UInt8}
    (hr : waitForResponse A ch.parser ts = some ⟨.ok, some pk, parser, received, rest⟩) :
    processItem A ch q.item ⟨none, q.send, ts, false⟩ =
      some ⟨{ ch with parser := parser }, .ofPacket pk, ch, false, received, rest⟩ := by
  simp [processItem, exchange, hopen, q.normal, q.sent, hr]

theorem processItem_overrun {ch : Channel} (hopen : ch.sockfd ≠ none) (q : Request)
    {ts rest : List RecvTurn} {parser : StreamParser} {received : List UInt8}
    (hr : waitForResponse A ch.parser ts = some ⟨.protocol, none, parser, received, rest⟩) :
    processItem A ch q.item ⟨none, q.send, ts, false⟩ =
      some ⟨({ ch with parser := parser } : Channel).closeSessionInternal, .failed .protocol, ch,
        false, received, rest⟩ := by
  simp [processItem, exchange, hopen, q.normal, q.sent, hr]

/-- Requests on an open connection are answered with the packets of the stream
if and only if every chunk fits. The induction is on the packets still to come,
with the position counted from the first of them. -/
theorem serve_iff {cap : ℕ} (ch : Channel) {ws : List (WirePacket cap)} {qs : List Request}
    {ts : List RecvTurn} (hopen : ch.sockfd ≠ none) (hwf : ch.parser.WF A)
    (hcap : ch.parser.bufCap = cap) (hquiet : ∀ t ∈ ts, t.Quiet)
    (hstream : ch.parser.unread ++ (chunks ts).flatten = stream ws)
    (hlen : qs.length = ws.length) :
    serve A ch qs ts = some (ws.map (·.result)) ↔
      Fits cap (ws.map (·.bytes.length)) ch.parser.unread.length (chunks ts) := by
  induction ws generalizing ch qs ts with
  | nil =>
      obtain rfl := List.length_eq_zero_iff.mp hlen
      have hflat : (chunks ts).flatten = [] := (List.append_eq_nil_iff.mp hstream).2
      rw [chunks_eq_nil hquiet hflat]
      exact iff_of_true rfl trivial
  | cons w ws ih =>
      obtain ⟨q, qs, rfl⟩ := List.exists_cons_of_length_eq_add_one hlen
      obtain ⟨r, hr, hresp⟩ := waitForResponse_quiet (ws.map (·.bytes.length)) hwf hcap
        hquiet (hstream.trans List.flatten_cons)
      cases hresp with
      | @answered p' _ _ hqwf hqcap hqquiet hqstream hfits =>
          have hih := ih { ch with parser := p' } hopen hqwf hqcap hqquiet hqstream
            (Nat.succ.inj hlen)
          rw [List.map_cons, List.map_cons, hfits, ← hih]
          simp [serve, processItem_answered hopen q hr, WirePacket.result]
      | overrun hnot =>
          refine iff_of_false (fun hserve => ?_) hnot
          simp only [serve, processItem_overrun hopen q hr, Option.bind_some,
            Option.map_eq_some_iff] at hserve
          obtain ⟨rs, -, hcons⟩ := hserve
          have hstatus := congrArg TcpResult.status (List.cons.inj hcons).1
          exact absurd hstatus (by simp [TcpResult.failed, WirePacket.result, TcpResult.ofPacket])

/-- After any earlier run of the worker, on a new connection whose inbound
stream is a concatenation of packets of at most `max_packet_size` bytes, as
many requests as packets are answered with these packets if and only if no
`recv` reaches more than `max_packet_size` bytes beyond the packet boundary
before it. The answer with a packet has its first two bytes, its data and the
verdict on its CRC. -/
theorem serve_eq_packets_iff_fits (A : Arch) (buf : Storage A) (jobs : List Job) {ch : Channel}
    {ds : List Done} (hrun : runWorker A (.create buf.bytes) jobs = some (ch, ds))
    (ws : List (WirePacket buf.bytes.length)) (qs : List Request) (ts : List RecvTurn)
    (hquiet : ∀ t ∈ ts, t.Quiet) (hstream : (chunks ts).flatten = stream ws)
    (hlen : qs.length = ws.length) :
    (serve A ch.opened qs ts = some (ws.map (·.result)) ↔
      Fits buf.bytes.length (ws.map (·.bytes.length)) 0 (chunks ts)) ∧
    ∀ w ∈ ws, w.result.status = .ok ∧ w.result.start = byteAt w.bytes 0 ∧
      w.result.command = byteAt w.bytes 1 ∧ w.result.data = w.bytes.drop packetHeaderLen ∧
      (w.result.crcValid = true ↔ w.bytes.drop packetHeaderLen = [] ∨
        fieldBE32 w.bytes 22 = crc32 (w.bytes.drop packetHeaderLen)) := by
  have hgood := (runWorker_good (.create buf) hrun).opened
  have hempty : ch.opened.parser.unread = [] := StreamParser.unread_init _
  have h := serve_iff ch.opened (by simp [Channel.opened]) hgood.wf hgood.bufCap hquiet
    (by rw [hempty]; exact hstream) hlen
  rw [hempty] at h
  refine ⟨h, fun w _ => ?_⟩
  have hdata : (frontPacket w.bytes).data = w.bytes.drop packetHeaderLen := by
    rw [frontPacket, w.size_eq, slice, List.take_length]
  obtain ⟨hstatus, hstart, hcommand, hd, hcrc⟩ := TcpResult.reports_ofPacket (frontPacket w.bytes)
  rw [hdata] at hd hcrc
  exact ⟨hstatus, hstart, hcommand, hd, hcrc⟩

def zeroPacket : WirePacket 26 := ⟨List.replicate 26 0, by decide, by decide, by decide⟩

def zeroRequest : Request :=
  ⟨⟨List.replicate 26 0, 1000, .normal, 0⟩, [⟨false, .ready false, .ok 26⟩], rfl, by decide⟩

def zeroTurn (n : ℕ) : RecvTurn := ⟨false, 1000, .ready false, .ok (List.replicate n 0)⟩

/-- Two packets in two chunks are two answers. -/
theorem serve_eq_packets_iff_fits_apart :
    serve .lp64 (Channel.create (List.replicate 26 0)).opened [zeroRequest, zeroRequest]
        [zeroTurn 26, zeroTurn 26] = some [zeroPacket.result, zeroPacket.result] := by
  have hturn : (zeroTurn 26).Quiet := ⟨rfl, by decide, by decide, by decide⟩
  refine (serve_eq_packets_iff_fits .lp64 ⟨List.replicate 26 0, by decide⟩ [] rfl
    [zeroPacket, zeroPacket] [zeroRequest, zeroRequest] [zeroTurn 26, zeroTurn 26] ?_ ?_ rfl).1.mpr
    ?_
  · simp [hturn]
  · decide
  · exact ⟨by decide, by decide, trivial⟩

/-- The same two packets in one chunk of 52 bytes do not fit a buffer of 26:
neither request is answered. -/
theorem serve_coalesced_fails :
    (∀ t ∈ [zeroTurn 52], t.Quiet) ∧
      (chunks [zeroTurn 52]).flatten = stream [zeroPacket, zeroPacket] ∧
      serve .lp64 (Channel.create (List.replicate 26 0)).opened [zeroRequest, zeroRequest]
        [zeroTurn 52] = some [.failed .protocol, .failed .io] ∧
      serve .lp64 (Channel.create (List.replicate 26 0)).opened [zeroRequest, zeroRequest]
        [zeroTurn 52] ≠ some [zeroPacket.result, zeroPacket.result] := by
  have hturn : (zeroTurn 52).Quiet := ⟨rfl, by decide, by decide, by decide⟩
  refine ⟨by simp [hturn], by decide, by decide +kernel, by decide +kernel⟩

end Savvy.Tcp
