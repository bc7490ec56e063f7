import Savvy.Ipc.Envelope
import Savvy.Json.RoundTrip

/-!
The sender and the receiver of an envelope. The sender checks the payload by
itself, and puts it into an envelope one level deeper than it was parsed; the
receiver parses the envelope as a whole. The two agree on every payload that
leaves a level of nesting for the envelope.
-/

namespace Savvy.Ipc

open CJson

/-! ### Texts of printed trees -/

theorem exists_ok_of_check {ε α : Type} {x : Except ε α} {check : α → Bool}
    (h : (x.toOption.any check) = true) : ∃ a, x = .ok a ∧ check a = true := by
  cases x with
  | error e => simp [Except.toOption] at h
  | ok a => exact ⟨a, rfl, by simpa [Except.toOption] using h⟩

theorem jsonParse_print {v : Json} (hplain : isPlain v = true)
    (hkeys : checkNoDuplicateKeys v = true) (hutf8 : checkUtf8 v = true) :
    jsonParse (printUnformatted v) =
      if depth v ≤ nestingLimit then .ok v else .error .protocol := by
  have hzero : (printUnformatted v).contains 0 = false := by
    have := zero_not_mem_printValue hplain
    simpa [printUnformatted] using this
  simp only [jsonParse, hzero, parseText, parseWithOpts_print hplain]
  by_cases hdepth : depth v ≤ nestingLimit
  · simp [hdepth, hkeys, hutf8]
  · simp [hdepth]

/-- What a text that was accepted has been checked for. -/
theorem jsonParse_ok {text : List UInt8} {v : Json} (h : jsonParse text = .ok v) :
    checkNoDuplicateKeys v = true ∧ checkUtf8 v = true := by
  rw [jsonParse] at h
  split at h
  · exact absurd h (by simp)
  · rw [parseText] at h
    split at h
    · exact absurd h (by simp)
    · next root _ =>
        split at h
        · exact absurd h (by simp)
        · next hkeys =>
            split at h
            · exact absurd h (by simp)
            · next hutf8 =>
                cases h
                exact ⟨by simpa using hkeys, by simpa using hutf8⟩

/-! ### The actions of the catalog -/

/-- An action of the catalog is a name that survives an envelope. -/
theorem catalog_action_ok : ∀ e ∈ catalog,
    e.action ≠ [] ∧ (!e.action.contains 0) = true ∧ utf8Validate e.action = true := by
  decide

theorem action_of_known {action : List UInt8} (hknown : actionKnown action = true) :
    action ≠ [] ∧ (!action.contains 0) = true ∧ utf8Validate action = true := by
  obtain ⟨e, he⟩ := Option.isSome_iff_exists.mp hknown
  have hmem : e ∈ catalog := List.mem_of_find?_eq_some he
  have heq : e.action = action := by simpa using List.find?_some he
  exact heq ▸ catalog_action_ok e hmem

/-! ### The envelope -/

def envelopeTree (action : List UInt8) (payload : List (List UInt8 × Json)) : Json :=
  .object [(ascii "action", .string action), (ascii "payload", .object payload)]

theorem depth_envelopeTree (action : List UInt8) (payload : List (List UInt8 × Json)) :
    depth (envelopeTree action payload) = depth (.object payload) + 1 := by
  simp [envelopeTree, depth, depthMembers]

theorem isPlain_envelopeTree {action : List UInt8} {payload : List (List UInt8 × Json)}
    (haction : (!action.contains 0) = true) (hplain : isPlain (.object payload) = true) :
    isPlain (envelopeTree action payload) = true := by
  have hnames : (!(ascii "action").contains 0) = true ∧ (!(ascii "payload").contains 0) = true := by
    decide
  simp only [envelopeTree, isPlain, isPlainMembers, hnames, haction, Bool.true_and, Bool.and_true]
  simpa only [isPlain] using hplain

theorem checkNoDuplicateKeys_envelopeTree {action : List UInt8}
    {payload : List (List UInt8 × Json)} (hkeys : checkNoDuplicateKeys (.object payload) = true) :
    checkNoDuplicateKeys (envelopeTree action payload) = true := by
  have hnames : distinctNames [(ascii "action", .string action),
      (ascii "payload", .object payload)] = true := by
    have : (cstr (ascii "action") != cstr (ascii "payload")) = true := by decide
    simp [distinctNames, this]
  rw [envelopeTree, checkNoDuplicateKeys, hnames]
  simp only [checkNoDuplicateKeysMembers, hkeys, Bool.and_true, Bool.true_and]
  rw [checkNoDuplicateKeys]
  all_goals simp

theorem checkUtf8_envelopeTree {action : List UInt8} {payload : List (List UInt8 × Json)}
    (haction : utf8Validate action = true) (hutf8 : checkUtf8 (.object payload) = true) :
    checkUtf8 (envelopeTree action payload) = true := by
  have hnames : utf8Validate (ascii "action") = true ∧ utf8Validate (ascii "payload") = true := by
    decide
  rw [envelopeTree, checkUtf8, checkUtf8Members, checkUtf8Members, checkUtf8Members, hnames.1,
    hnames.2, hutf8, checkUtf8, haction]
  rfl

/-- The receiver takes an envelope's tree apart again. -/
theorem envelopeOfRoot_envelopeTree {action : List UInt8} (payload : List (List UInt8 × Json))
    (hne : action ≠ []) (hzero : (!action.contains 0) = true) :
    envelopeOfRoot (envelopeTree action payload) =
      .ok ⟨action, printUnformatted (.object payload)⟩ := by
  have hname : (cstr (ascii "action") == ascii "action") = true := by decide
  have hother : (cstr (ascii "action") == ascii "payload") = false := by decide
  have hsame : (cstr (ascii "payload") == ascii "payload") = true := by decide
  have haction : getObjectItem (envelopeTree action payload) (ascii "action") =
      some (.string action) := by
    simp only [getObjectItem, envelopeTree, List.find?_cons, hname, Option.map_some]
  have hpayload : getObjectItem (envelopeTree action payload) (ascii "payload") =
      some (.object payload) := by
    simp only [getObjectItem, envelopeTree, List.find?_cons, hother, hsame, Option.map_some]
  rw [envelopeTree] at haction hpayload ⊢
  simp only [envelopeOfRoot, haction, hpayload, List.length_cons, List.length_nil]
  simp [cstr_of_not_contains hzero, hne]

/-- What `savvy_ipc_envelope_build` has checked when it returns a text. -/
theorem envelopeBuild_ok {action payload text : List UInt8}
    (h : envelopeBuild action payload = .ok text) :
    ∃ members, jsonParse payload = .ok (.object members) ∧
      text = printUnformatted (envelopeTree action members) ∧ text.length ≤ maxMessage := by
  rw [envelopeBuild] at h
  split at h
  · exact absurd h (by simp)
  · split at h
    · exact absurd h (by simp)
    · next members hparse =>
        simp only at h
        split at h
        · exact absurd h (by simp)
        · next hlen =>
            cases h
            exact ⟨members, hparse, rfl, Nat.not_lt.mp hlen⟩
    · exact absurd h (by simp)

theorem envelopeParse_envelopeTree {action : List UInt8} {members : List (List UInt8 × Json)}
    (hknown : actionKnown action = true) (hplain : isPlain (.object members) = true)
    (hkeys : checkNoDuplicateKeys (.object members) = true)
    (hutf8 : checkUtf8 (.object members) = true) :
    envelopeParse (printUnformatted (envelopeTree action members)) =
      if depth (.object members) < nestingLimit then
        .ok ⟨action, printUnformatted (.object members)⟩
      else .error .protocol := by
  obtain ⟨hne, hzero, haction⟩ := action_of_known hknown
  rw [envelopeParse, jsonParse_print (isPlain_envelopeTree hzero hplain)
    (checkNoDuplicateKeys_envelopeTree hkeys) (checkUtf8_envelopeTree haction hutf8),
    depth_envelopeTree]
  by_cases hdepth : depth (.object members) < nestingLimit
  · rw [if_pos hdepth, if_pos (Nat.succ_le_of_lt hdepth)]
    exact envelopeOfRoot_envelopeTree members hne hzero
  · rw [if_neg hdepth, if_neg (fun h => hdepth (Nat.lt_of_succ_le h))]

/-- The receiver gets what the sender sent: the action, and a payload with the
same tree that passes the check of the action. -/
def Agrees (action text : List UInt8) (tree : Json) : Prop :=
  ∃ payload, envelopeParse text = .ok ⟨action, payload⟩ ∧ jsonParse payload = .ok tree ∧
    validatePayload action payload = .ok

/-- A payload that the sender accepts reaches the receiver exactly if it is
nested less deep than the parser may go. -/
theorem agrees_iff_depth {action payload text : List UInt8} {tree : Json}
    (hknown : actionKnown action = true) (htree : jsonParse payload = .ok tree)
    (hplain : isPlain tree = true) (hvalid : validatePayload action payload = .ok)
    (hbuild : envelopeBuild action payload = .ok text) :
    Agrees action text tree ↔ depth tree < nestingLimit := by
  obtain ⟨members, hmembers, rfl, -⟩ := envelopeBuild_ok hbuild
  rw [htree] at hmembers
  cases hmembers
  obtain ⟨hkeys, hutf8⟩ := jsonParse_ok htree
  have hparse := envelopeParse_envelopeTree hknown hplain hkeys hutf8
  by_cases hdepth : depth (.object members) < nestingLimit
  · rw [if_pos hdepth] at hparse
    have hagain := jsonParse_print hplain hkeys hutf8
    rw [if_pos (Nat.le_of_lt hdepth)] at hagain
    -- the check of the action looks at the tree only
    have hcheck : validatePayload action (printUnformatted (.object members)) = .ok := by
      rw [validatePayload, htree] at hvalid
      rw [validatePayload, hagain]
      exact hvalid
    exact ⟨fun _ => hdepth, fun _ => ⟨_, hparse, hagain, hcheck⟩⟩
  · rw [if_neg hdepth] at hparse
    refine ⟨?_, fun h => absurd h hdepth⟩
    rintro ⟨payload', henvelope, -⟩
    rw [hparse] at henvelope
    exact absurd henvelope (by simp)

/-- A payload with a number, a null and a member that the catalog does not know. -/
def tofPayload : List UInt8 :=
  ascii "\x7b\"TofTemperature\": -7, \"MicValue\": null, \"x\": [true, \"\\u00e9\\n\"]\x7d"

theorem agrees_iff_depth_tof :
    ∃ text tree, jsonParse tofPayload = .ok tree ∧
      envelopeBuild (ascii "com.uniuni.savvymgr.tof.property") tofPayload = .ok text ∧
      Agrees (ascii "com.uniuni.savvymgr.tof.property") text tree := by
  obtain ⟨tree, htree, hplain⟩ : ∃ tree, jsonParse tofPayload = .ok tree ∧
      (isPlain tree && depth tree == 2) = true := exists_ok_of_check (by decide +kernel)
  obtain ⟨text, htext, -⟩ : ∃ text, envelopeBuild (ascii "com.uniuni.savvymgr.tof.property")
      tofPayload = .ok text ∧ (text.length == 111) = true := exists_ok_of_check (by decide +kernel)
  simp only [Bool.and_eq_true, beq_iff_eq] at hplain
  refine ⟨text, tree, htree, htext, ?_⟩
  refine (agrees_iff_depth (by decide +kernel) htree hplain.1 (by decide +kernel) htext).mpr ?_
  rw [hplain.2]
  decide

/-! ### The limit -/

def nestedArrays : ℕ → Json
  | 0 => .array []
  | n + 1 => .array [nestedArrays n]

theorem nestedArrays_plain (n : ℕ) : isPlain (nestedArrays n) = true ∧
    checkNoDuplicateKeys (nestedArrays n) = true ∧ checkUtf8 (nestedArrays n) = true := by
  induction n with
  | zero => decide
  | succ n ih =>
      simp [nestedArrays, isPlain, isPlainItems, checkNoDuplicateKeys,
        checkNoDuplicateKeysItems, checkUtf8, checkUtf8Items, ih]

theorem nestedArrays_size (n : ℕ) : depth (nestedArrays n) = n + 1 ∧
    (printValue (nestedArrays n)).length = 2 * n + 2 := by
  induction n with
  | zero => decide
  | succ n ih =>
      refine ⟨by simp [nestedArrays, depth, depthItems, ih], ?_⟩
      simp [nestedArrays, printValue, printItems, ih]
      omega

def deepMembers (n : ℕ) : List (List UInt8 × Json) := [(ascii "a", nestedArrays n)]

theorem deepMembers_plain (n : ℕ) : isPlain (.object (deepMembers n)) = true ∧
    checkNoDuplicateKeys (.object (deepMembers n)) = true ∧
    checkUtf8 (.object (deepMembers n)) = true ∧ depth (.object (deepMembers n)) = n + 2 := by
  obtain ⟨hplain, hkeys, hutf8⟩ := nestedArrays_plain n
  have hname : (!(ascii "a").contains 0) = true ∧ utf8Validate (ascii "a") = true := by
    decide
  refine ⟨?_, ?_, ?_, ?_⟩
  · simp only [deepMembers, isPlain, isPlainMembers, hname, hplain, Bool.and_true]
  · simp [deepMembers, checkNoDuplicateKeys, distinctNames, checkNoDuplicateKeysMembers, hkeys]
  · simp only [deepMembers, checkUtf8, checkUtf8Members, hname, hutf8, Bool.and_true]
  · simp [deepMembers, depth, depthMembers, nestedArrays_size]

/-- The action that the deep payloads are sent with: it has no keys. -/
def connectAction : List UInt8 := ascii "com.uniuni.savvymgr.ipc.connect"

theorem connectAction_known : actionKnown connectAction = true := by decide

theorem validatePayload_connect {payload : List UInt8} {members : List (List UInt8 × Json)}
    (hparse : jsonParse payload = .ok (.object members)) :
    validatePayload connectAction payload = .ok := by
  obtain ⟨e, he, hkeys⟩ : ∃ e, findEntry connectAction = some e ∧
      e.payloadKeys.isEmpty = true := by
    have : ((findEntry connectAction).any (·.payloadKeys.isEmpty)) = true := by decide
    simpa [Option.any_eq_true] using this
  rw [List.isEmpty_iff] at hkeys
  simp [validatePayload, he, hparse, validateRoot, hkeys]

theorem length_deep_envelope (n : ℕ) :
    (printUnformatted (envelopeTree connectAction (deepMembers n))).length = 2 * n + 63 := by
  have hname : (printString (ascii "a")).length = 3 := by decide
  have haction : (printString connectAction).length = 33 := by decide
  have hfirst : (printString (ascii "action")).length = 8 := by decide
  have hsecond : (printString (ascii "payload")).length = 9 := by decide
  simp only [printUnformatted, envelopeTree, deepMembers, printValue, printMembers,
    nestedArrays_size, hname, haction, hfirst, hsecond, List.length_append, List.length_cons,
    List.length_nil, List.isEmpty_cons, List.isEmpty_nil, Bool.false_eq_true, if_true, if_false]
  omega

/-- The sender takes a payload as deep as the parser goes. -/
theorem deep_sent {n : ℕ} (hn : n + 2 ≤ nestingLimit) :
    jsonParse (printUnformatted (.object (deepMembers n))) = .ok (.object (deepMembers n)) ∧
      envelopeBuild connectAction (printUnformatted (.object (deepMembers n))) =
        .ok (printUnformatted (envelopeTree connectAction (deepMembers n))) := by
  obtain ⟨hplain, hkeys, hutf8, hdepth⟩ := deepMembers_plain n
  have hparse := jsonParse_print hplain hkeys hutf8
  rw [hdepth, if_pos hn] at hparse
  have hne : connectAction ≠ [] := (action_of_known connectAction_known).1
  have hlength := length_deep_envelope n
  have hfits : ¬ maxMessage < (printUnformatted
      (envelopeTree connectAction (deepMembers n))).length := by
    unfold nestingLimit at hn
    unfold maxMessage
    omega
  refine ⟨hparse, ?_⟩
  rw [envelopeBuild, if_neg hne, hparse]
  exact if_neg hfits

/-- The receiver does not take the envelope if the payload leaves no level. -/
theorem deep_refused {n : ℕ} (hn : nestingLimit ≤ n + 2) :
    envelopeParse (printUnformatted (envelopeTree connectAction (deepMembers n))) =
      .error .protocol := by
  obtain ⟨hplain, hkeys, hutf8, hdepth⟩ := deepMembers_plain n
  rw [envelopeParse_envelopeTree connectAction_known hplain hkeys hutf8, hdepth,
    if_neg (Nat.not_lt.mpr hn)]

/-- The sender takes a payload with 1000 levels and puts it into an envelope that
the receiver does not take. -/
theorem agrees_deep_fails :
    ∃ text, actionKnown connectAction = true ∧
      jsonParse (printUnformatted (.object (deepMembers 998))) = .ok (.object (deepMembers 998)) ∧
      isPlain (.object (deepMembers 998)) = true ∧
      validatePayload connectAction (printUnformatted (.object (deepMembers 998))) = .ok ∧
      envelopeBuild connectAction (printUnformatted (.object (deepMembers 998))) = .ok text ∧
      envelopeParse text = .error .protocol ∧
      ¬ Agrees connectAction text (.object (deepMembers 998)) := by
  obtain ⟨hparse, hbuild⟩ := @deep_sent 998 (by decide)
  have hrefused := @deep_refused 998 (by decide)
  refine ⟨_, connectAction_known, hparse, (deepMembers_plain 998).1,
    validatePayload_connect hparse, hbuild, hrefused, ?_⟩
  rintro ⟨payload, hagree, -⟩
  rw [hrefused] at hagree
  exact absurd hagree (by simp)

end Savvy.Ipc
