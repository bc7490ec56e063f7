import Savvy.Tcp.Coalescing

/-!
The first packet of the stream that a request waits on, of any size. A wait ends
with the `recv` that completes the packet; it is answered if and only if
everything up to the end of that `recv` fits the buffer.
-/

namespace Savvy.Tcp

open Kit

variable {A : Arch}

/-! ### The end of the wait -/

/-- The position behind the chunk that completes a packet of `size` bytes, from
position `pos` on. -/
def reach (size : ℕ) : ℕ → List (List UInt8) → ℕ
  | pos, [] => pos
  | pos, c :: cs => if size ≤ pos then pos else reach size (pos + c.length) cs

theorem reach_of_le {size pos : ℕ} (h : size ≤ pos) (cs : List (List UInt8)) :
    reach size pos cs = pos := by
  cases cs with
  | nil => rfl
  | cons c cs => exact if_pos h

theorem reach_cons {size pos : ℕ} (h : pos < size) (c : List UInt8) (cs : List (List UInt8)) :
    reach size pos (c :: cs) = reach size (pos + c.length) cs :=
  if_neg (Nat.not_le.mpr h)

theorem le_reach (size pos : ℕ) (cs : List (List UInt8)) : pos ≤ reach size pos cs := by
  induction cs generalizing pos with
  | nil => exact Nat.le_refl pos
  | cons c cs ih =>
      have hnext := ih (pos + c.length)
      rw [reach]
      split
      · exact Nat.le_refl pos
      · omega

theorem reach_le (size pos : ℕ) (cs : List (List UInt8)) :
    reach size pos cs ≤ pos + cs.flatten.length := by
  induction cs generalizing pos with
  | nil => exact Nat.le_refl pos
  | cons c cs ih =>
      have hnext := ih (pos + c.length)
      rw [reach, List.flatten_cons, List.length_append]
      split
      · omega
      · omega

/-- A packet that the chunks complete ends within the reach. -/
theorem size_le_reach {size pos : ℕ} {cs : List (List UInt8)}
    (h : size ≤ pos + cs.flatten.length) : size ≤ reach size pos cs := by
  induction cs generalizing pos with
  | nil => exact h
  | cons c cs ih =>
      rw [List.flatten_cons, List.length_append] at h
      rw [reach]
      split
      · next hle => exact hle
      · exact ih (by omega)

/-! ### Waiting -/

/-- How a wait on the stream `xs` ends when nothing but data arrives. -/
inductive FirstResponse (xs : List UInt8) (fits : Prop) : Response → Prop
  | answered {q : StreamParser} {received : List UInt8} {ts : List RecvTurn} (h : fits) :
      FirstResponse xs fits ⟨.ok, some (frontPacket xs), q, received, ts⟩
  | overrun {q : StreamParser} {received : List UInt8} {ts : List RecvTurn} (h : ¬ fits) :
      FirstResponse xs fits ⟨.protocol, none, q, received, ts⟩

section First

variable {cap : ℕ} {xs : List UInt8}

/-- Reading a part `ys` of a stream whose first packet is complete. -/
inductive FirstRead (A : Arch) (cap : ℕ) (xs ys : List UInt8) :
    Option (TcpStatus × Option Packet) × StreamParser → Prop
  | more {q : StreamParser} (hwf : q.WF A) (hcap : q.bufCap = cap) (hunread : q.unread = ys)
      (h : ys.length < packetSize xs) : FirstRead A cap xs ys (none, q)
  | bad {q : StreamParser} (h : cap < packetSize xs) :
      FirstRead A cap xs ys (some (.protocol, none), q)
  | packet {q : StreamParser} (h : packetSize xs ≤ ys.length) :
      FirstRead A cap xs ys (some (.ok, some (frontPacket xs)), q)

theorem ReadSpec.first {ys zs : List UInt8} {res : Option (TcpStatus × Option Packet) × StreamParser}
    (hread : ReadSpec A cap ys res) (hxs : ys ++ zs = xs) : FirstRead A cap xs ys res := by
  have hsize (hys : packetHeaderLen ≤ ys.length) : packetSize xs = packetSize ys := by
    rw [← hxs, packetSize_append hys]
  have hhdr := packetHeaderLen_le_packetSize xs
  cases hread with
  | more hwf hcap hmore hunread =>
      refine .more hwf hcap hunread ?_
      by_contra hle
      have hs := hsize (by omega)
      by_cases hfits : packetSize ys ≤ cap
      · have hframe := packetScan_eq_frame.mpr ⟨hfits, by omega, rfl, rfl⟩
        rw [hmore] at hframe
        cases hframe
      · have hbad := packetScan_eq_bad.mpr ⟨by omega, Nat.lt_of_not_le hfits⟩
        rw [hmore] at hbad
        cases hbad
  | bad _ _ hscan =>
      obtain ⟨hlen, hcap⟩ := packetScan_eq_bad.mp hscan
      exact .bad (by rw [hsize hlen]; exact hcap)
  | packet _ _ hscan _ =>
      obtain ⟨-, hlen, rfl, -⟩ := packetScan_eq_frame.mp hscan
      have hys := (packetHeaderLen_le_packetSize ys).trans hlen
      have hfront : frontPacket (ys ++ zs) = frontPacket ys := frontPacket_append hlen
      rw [← hfront, hxs]
      exact .packet (by rw [hsize hys]; exact hlen)

/-- The induction is on the turns: a chunk that does not fit, or that shows a
packet that does not fit, ends the wait. -/
theorem waitLoop_first {p : StreamParser} {received : List UInt8} {ts more : List RecvTurn}
    (hwf : p.WF A) (hcap : p.bufCap = cap) (hquiet : ∀ t ∈ ts, t.Quiet)
    (hstream : p.unread ++ (chunks ts).flatten = xs) (hsize : packetSize xs ≤ xs.length)
    (hlt : p.unread.length < packetSize xs) :
    ∃ r, waitLoop A p received (ts ++ more) = some r ∧
      FirstResponse xs (reach (packetSize xs) p.unread.length (chunks ts) ≤ cap) r := by
  induction ts generalizing p received with
  | nil =>
      rw [chunks, List.filterMap_nil, List.flatten_nil, List.append_nil] at hstream
      rw [hstream] at hlt
      omega
  | cons t ts ih =>
      obtain ⟨ht, hquiet'⟩ := List.forall_mem_cons.mp hquiet
      obtain ⟨hchunk, hloop⟩ | ⟨bytes, hchunk, hloop⟩ :=
        waitLoop_quiet_cons (A := A) ht p received (ts ++ more)
      · rw [chunks_cons_of_none hchunk] at hstream ⊢
        rw [List.cons_append, hloop]
        exact ih hwf hcap hquiet' hstream hlt
      · rw [chunks_cons_of_some hchunk] at hstream ⊢
        rw [List.flatten_cons, ← List.append_assoc] at hstream
        rw [List.cons_append, hloop, reach_cons hlt, ← List.length_append]
        have hall : packetSize xs ≤ (p.unread ++ bytes).length + (chunks ts).flatten.length := by
          rw [← List.length_append, hstream]
          exact hsize
        have hpos := le_reach (packetSize xs) (p.unread ++ bytes).length (chunks ts)
        obtain ⟨hle, hread⟩ | ⟨hover, q, hres, -, -⟩ := pushAndExtract_spec hwf bytes
        · rw [hcap] at hread hle
          rw [← List.length_append] at hle
          have hfirst := hread.first hstream
          generalize pushAndExtract A p bytes = res at hfirst
          cases hfirst with
          | more hqwf hqcap hq hshort =>
              rw [← hq] at hstream hshort ⊢
              exact ih hqwf hqcap hquiet' hstream hshort
          | bad hbad =>
              have hreach := size_le_reach hall
              exact ⟨_, rfl, .overrun (by omega)⟩
          | packet hdone =>
              rw [reach_of_le hdone]
              exact ⟨_, rfl, .answered hle⟩
        · rw [hres]
          rw [hcap, ← List.length_append] at hover
          exact ⟨_, rfl, .overrun (by omega)⟩

/-- Waiting on a stream whose first packet arrives whole. The turns behind it are
not taken. -/
theorem waitForResponse_first {p : StreamParser} {ts : List RecvTurn} (more : List RecvTurn)
    (hwf : p.WF A)
    (hcap : p.bufCap = cap) (hquiet : ∀ t ∈ ts, t.Quiet)
    (hstream : p.unread ++ (chunks ts).flatten = xs) (hsize : packetSize xs ≤ xs.length) :
    ∃ r, waitForResponse A p (ts ++ more) = some r ∧
      FirstResponse xs (reach (packetSize xs) p.unread.length (chunks ts) ≤ cap) r := by
  have hall : packetSize xs ≤ p.unread.length + (chunks ts).flatten.length := by
    rw [← List.length_append, hstream]
    exact hsize
  have hread := extractResponse_spec hwf
  rw [hcap] at hread
  have hfirst := hread.first hstream
  unfold waitForResponse
  generalize extractResponse A p = res at hfirst
  cases hfirst with
  | more hqwf hqcap hq hshort =>
      rw [← hq] at hstream hshort ⊢
      exact waitLoop_first hqwf hqcap hquiet hstream hsize hshort
  | bad hbad =>
      have hreach := size_le_reach hall
      exact ⟨_, rfl, .overrun (by omega)⟩
  | packet hdone =>
      have hlen : p.unread.length ≤ cap := by
        have htail := hwf.tail_le
        rw [hwf.length_unread, ← hcap]
        omega
      rw [reach_of_le hdone]
      exact ⟨_, rfl, .answered hlen⟩

end First

/-! ### One request -/

/-- The channel that an item is sent on: the open one, or one that was just
connected. -/
inductive Connects (ch : Channel) (addresses : Option (List Address)) : Channel → Prop
  | same (h : ch.sockfd ≠ none) : Connects ch addresses ch
  | fresh {base : Channel} (h : ch.sockfd = none)
      (hconn : tryConnect ch addresses = some (.ok, base)) : Connects ch addresses base

/-- A request is sent on `base`, and the chunks `cs` arrive there without error or
timeout; together with what the parser holds already they are the stream `xs`,
whose first packet is complete. What happens later is open. -/
structure Arrives (ch : Channel) (item : QueueItem) (env : ItemEnv) (base : Channel)
    (cs : List (List UInt8)) (xs : List UInt8) : Prop where
  connects : Connects ch env.addresses base
  sent : sendAll item.packet env.send = some .ok
  recv : ∃ ts more, env.recv = ts ++ more ∧ (∀ t ∈ ts, t.Quiet) ∧ chunks ts = cs
  stream : base.parser.unread ++ cs.flatten = xs
  complete : packetSize xs ≤ xs.length

theorem Connects.good {cap : ℕ} {ch base : Channel} {addresses : Option (List Address)}
    (h : Connects ch addresses base) (hch : ch.Good A cap) : base.Good A cap := by
  cases h with
  | same _ => exact hch
  | fresh _ hconn =>
      obtain ⟨-, rfl⟩ | ⟨hok, -⟩ := tryConnect_cases hconn
      · exact hch.opened
      · exact absurd rfl hok

theorem Connects.processItem {ch base : Channel} {item : QueueItem} {env : ItemEnv}
    (h : Connects ch env.addresses base) (hkind : item.kind = .normal) :
    ∃ tried, processItem A ch item env = exchange A base item env tried := by
  have hrelay : ¬ (item.kind = .relay ∧ ch.sockfd = none) := by
    rw [hkind]
    simp
  cases h with
  | same hopen => exact ⟨false, by rw [Tcp.processItem, if_neg hrelay, if_neg hopen]⟩
  | fresh hnone hconn => exact ⟨true, by rw [Tcp.processItem, if_neg hrelay, if_pos hnone, hconn]⟩

/-- A request is completed with the first packet of the stream if everything up
to the end of the `recv` that completes it fits the buffer, and otherwise with a
protocol error. -/
theorem Arrives.result {cap : ℕ} {ch base : Channel} {item : QueueItem} {env : ItemEnv}
    {cs : List (List UInt8)} {xs : List UInt8} (h : Arrives ch item env base cs xs)
    (hch : ch.Good A cap) (hkind : item.kind = .normal) :
    ∃ d, processItem A ch item env = some d ∧
      d.result = if reach (packetSize xs) base.parser.unread.length cs ≤ cap then
        .ofPacket (frontPacket xs) else .failed .protocol := by
  have hbase := h.connects.good hch
  obtain ⟨tried, hproc⟩ := h.connects.processItem (A := A) hkind
  obtain ⟨ts, more, hrecv, hquiet, rfl⟩ := h.recv
  obtain ⟨r, hr, hresp⟩ :=
    waitForResponse_first more hbase.wf hbase.bufCap hquiet h.stream h.complete
  rw [hproc]
  cases hresp with
  | answered hfits =>
      simp only [exchange, h.sent, hkind, hrecv, hr]
      exact ⟨_, rfl, (if_pos hfits).symm⟩
  | overrun hfits =>
      simp only [exchange, h.sent, hkind, hrecv, hr]
      exact ⟨_, rfl, (if_neg hfits).symm⟩

end Savvy.Tcp
