import Kopete.Bonjour.Stanzas

/-!
# Bonjour — stanzas in segments

The stanzas of a stream arrive in segments, cut anywhere. A segment that begins between
stanzas is read from there; what of a message is there when its data runs out is all that
is received of it. From a segment that begins inside a stanza nothing is received.

Main results:

* `receive_eq` — what is received, segment by segment;
* `receivedFrom_iff` — that is all that is said, exactly if the cuts do no harm;
* `transmitted_iff` — so it is in whole transmissions, from the beginning of the stream.
-/

namespace Bonjour

open XmlStream

/-! ## A segment and the stanzas in it -/

/-- What is received where the first `n` tokens of the stanzas come in one segment. -/
def heardBy : List Stanza → Nat → List Text
  | [], _ => []
  | s :: ss, n =>
    if n = 0 then []
    else if s.tokens.length ≤ n then s.said ++ heardBy ss (n - s.tokens.length)
    else s.partly n

/-- What is left behind `n` tokens: how many of a stanza that has begun, and the stanzas that
have not. -/
def after : List Stanza → Nat → Nat × List Stanza
  | [], _ => (0, [])
  | s :: ss, n =>
    if n = 0 then (0, s :: ss)
    else if s.tokens.length ≤ n then after ss (n - s.tokens.length)
    else (s.tokens.length - n, ss)

/-- The stanzas that begin among the first `n` tokens. -/
def begun : List Stanza → Nat → List Stanza
  | [], _ => []
  | s :: ss, n => if n = 0 then [] else s :: begun ss (n - s.tokens.length)

/-- The stanzas whose first `n` tokens come in one segment are told apart by their tags, the
one that is cut so that its rest is not taken for another one. -/
def FreshSound : List Stanza → Nat → Prop
  | [], _ => True
  | s :: ss, n =>
    n = 0 ∨ if s.tokens.length ≤ n then s.Delimited ∧ FreshSound ss (n - s.tokens.length)
      else s.Quiet

/-- The one that is cut has been heard. -/
def FreshTimely : List Stanza → Nat → Prop
  | [], _ => True
  | s :: ss, n =>
    n = 0 ∨ if s.tokens.length ≤ n then FreshTimely ss (n - s.tokens.length) else s.Heard n

theorem begun_append_after (ss : List Stanza) (n : Nat) : begun ss n ++ (after ss n).2 = ss := by
  induction ss generalizing n with
  | nil => rfl
  | cons s ss ih =>
    rw [begun, after]
    split
    · rfl
    · split
      · rw [List.cons_append, ih]
      case isFalse hCut =>
        have hNone : n - s.tokens.length = 0 := by omega
        have hBegun : begun ss 0 = [] := by cases ss <;> rfl
        rw [hNone, hBegun]
        rfl

theorem length_tokens_pos (s : Stanza) : s.tokens.length ≠ 0 := by
  cases s <;> exact Nat.succ_ne_zero _

/-- The tokens of the segment are those of the stanzas that begin in it. -/
theorem take_begun (ss : List Stanza) (n : Nat) :
    (ss.flatMap Stanza.tokens).take n = ((begun ss n).flatMap Stanza.tokens).take n := by
  induction ss generalizing n with
  | nil => rfl
  | cons s ss ih =>
    rw [begun]
    split
    case isTrue hNone => rw [hNone, List.take_zero, List.take_zero]
    case isFalse =>
      rw [List.flatMap_cons, List.flatMap_cons, List.take_append, List.take_append, ih]

/-- What a segment leaves of the stanza that it cuts: its last `k` tokens. -/
def Leftover (k : Nat) (l : List Token) : Prop :=
  l.length = k ∧ (k ≠ 0 → ∃ s : Stanza, s.Quiet ∧ ∃ n, n ≠ 0 ∧ n < s.tokens.length ∧
    l = s.tokens.drop n)

theorem leftover_nil : Leftover 0 [] := ⟨rfl, fun h => absurd rfl h⟩

/-- The tokens behind a segment. -/
theorem drop_after {ss : List Stanza} {n : Nat} (h : FreshSound ss n) :
    ∃ l, (ss.flatMap Stanza.tokens).drop n = l ++ (after ss n).2.flatMap Stanza.tokens ∧
      Leftover (after ss n).1 l := by
  induction ss generalizing n with
  | nil => exact ⟨[], List.drop_nil, leftover_nil⟩
  | cons s ss ih =>
    rw [after]
    split
    case isTrue hNone =>
      rw [hNone]
      exact ⟨[], rfl, leftover_nil⟩
    case isFalse hSome =>
      have hFresh := h.resolve_left hSome
      split
      case isTrue hWhole =>
        rw [if_pos hWhole] at hFresh
        obtain ⟨i, rfl⟩ : ∃ i, n = s.tokens.length + i := ⟨n - s.tokens.length, by omega⟩
        rw [List.flatMap_cons, List.drop_length_add_append]
        rw [Nat.add_sub_cancel_left] at hFresh ⊢
        exact ih hFresh.2
      case isFalse hCut =>
        rw [if_neg hCut] at hFresh
        refine ⟨s.tokens.drop n, ?_, List.length_drop, fun _ => ?_⟩
        · rw [List.flatMap_cons, List.drop_append_of_le_length (by omega)]
        · exact ⟨s, hFresh, n, hSome, by omega, rfl⟩

theorem freshSound_of_quiet {ss : List Stanza} {n : Nat} (h : ∀ s ∈ begun ss n, s.Quiet) :
    FreshSound ss n := by
  induction ss generalizing n with
  | nil => trivial
  | cons s ss ih =>
    by_cases hNone : n = 0
    · exact .inl hNone
    · rw [begun, if_neg hNone] at h
      have hQuiet := h s List.mem_cons_self
      refine .inr ?_
      split
      · exact ⟨hQuiet.delimited, ih fun s' hs' => h s' (List.mem_cons_of_mem _ hs')⟩
      · exact hQuiet

namespace BonjourContactConnection

variable {account : BonjourAccount} {c : BonjourContactConnection}

theorem dataInSocket_prematureEnd (hc : c.connectionState = .connected) :
    (c.reading [.prematureEnd]).dataInSocket account = c.reading [] :=
  mute_silents (fun _ ht => absurd ht List.not_mem_nil) c hc

/-- **A segment that begins between stanzas.** -/
theorem dataInSocket_fresh (hc : c.connectionState = .connected) {ss : List Stanza} {n : Nat}
    (h : FreshSound ss n) :
    (c.reading ((ss.flatMap Stanza.tokens).take n ++ [.prematureEnd])).dataInSocket account =
      (c.hear (heardBy ss n)).reading [] := by
  induction ss generalizing n c with
  | nil =>
    rw [List.flatMap_nil, List.take_nil, heardBy, hear_nil]
    exact dataInSocket_prematureEnd hc
  | cons s ss ih =>
    rw [heardBy]
    split
    case isTrue hNone =>
      rw [hNone, List.take_zero, hear_nil]
      exact dataInSocket_prematureEnd hc
    case isFalse hSome =>
      have hFresh := h.resolve_left hSome
      rw [List.flatMap_cons]
      split
      case isTrue hWhole =>
        rw [if_pos hWhole] at hFresh
        obtain ⟨i, rfl⟩ : ∃ i, n = s.tokens.length + i := ⟨n - s.tokens.length, by omega⟩
        rw [Nat.add_sub_cancel_left] at hFresh ⊢
        rw [List.take_length_add_append, List.append_assoc,
          dataInSocket_whole account hc hFresh.1]
        show ((c.hear s.said).reading _).dataInSocket account = _
        have hRest : (c.hear s.said).connectionState = .connected := hc
        rw [ih hRest hFresh.2, hear_hear]
      case isFalse hCut =>
        rw [if_neg hCut] at hFresh
        rw [List.take_append_of_le_length (by omega)]
        exact dataInSocket_cut account hc hFresh.delimited hSome (by omega)

end BonjourContactConnection

/-! ## One segment after the other -/

/-- What is received from segments, given by how many tokens each brings, where `k` tokens of
a stanza that has begun are still to come. -/
def receivedFrom : Nat → List Stanza → List Nat → List Text
  | _, _, [] => []
  | 0, ss, n :: ns => heardBy ss n ++ receivedFrom (after ss n).1 (after ss n).2 ns
  | k + 1, ss, n :: ns =>
    if n ≤ k then receivedFrom (k + 1 - n) ss ns
    else receivedFrom (after ss (n - (k + 1))).1 (after ss (n - (k + 1))).2 ns

/-- The stanzas are told apart by their tags: all those in a segment that begins inside a
stanza, and those that are cut, have no tag inside that could be taken for one of theirs. -/
def Sound : Nat → List Stanza → List Nat → Prop
  | _, _, [] => True
  | 0, ss, n :: ns => FreshSound ss n ∧ Sound (after ss n).1 (after ss n).2 ns
  | k + 1, ss, n :: ns =>
    if n ≤ k then Sound (k + 1 - n) ss ns
    else (∀ s ∈ begun ss (n - (k + 1)), s.Quiet) ∧
      Sound (after ss (n - (k + 1))).1 (after ss (n - (k + 1))).2 ns

/-- **The cuts that do no harm**: in a segment that begins between stanzas every message that
begins has its text, and in one that begins inside a stanza no message with a text begins. -/
def Timely : Nat → List Stanza → List Nat → Prop
  | _, _, [] => True
  | 0, ss, n :: ns => FreshTimely ss n ∧ Timely (after ss n).1 (after ss n).2 ns
  | k + 1, ss, n :: ns =>
    if n ≤ k then Timely (k + 1 - n) ss ns
    else (∀ s ∈ begun ss (n - (k + 1)), s.said = []) ∧
      Timely (after ss (n - (k + 1))).1 (after ss (n - (k + 1))).2 ns

namespace BonjourContactConnection

variable {account : BonjourAccount} {c : BonjourContactConnection}

theorem segment_reading (ts : List Token) :
    (c.reading []).segment account ts =
      (c.reading (ts ++ [.prematureEnd])).dataInSocket account := rfl

/-- **What is received**, segment by segment. -/
theorem receive_eq (account : BonjourAccount) {c : BonjourContactConnection}
    (hc : c.connectionState = .connected) {k : Nat} {l : List Token}
    (hl : Leftover k l) {ss : List Stanza} {chunks : List (List Token)}
    (hFlat : chunks.flatten = l ++ ss.flatMap Stanza.tokens)
    (hSound : Sound k ss (chunks.map List.length)) :
    chunks.foldl (segment account) (c.reading []) =
      (c.hear (receivedFrom k ss (chunks.map List.length))).reading [] := by
  induction chunks generalizing c k l ss with
  | nil =>
    rw [List.map_nil, receivedFrom, hear_nil]
    rfl
  | cons ts chunks ih =>
    have hChunk : ts = (l ++ ss.flatMap Stanza.tokens).take ts.length := by
      rw [← hFlat, List.flatten_cons, List.take_left]
    have hRest : chunks.flatten = (l ++ ss.flatMap Stanza.tokens).drop ts.length := by
      rw [← hFlat, List.flatten_cons, List.drop_left]
    rw [List.foldl_cons, List.map_cons, segment_reading]
    rw [List.map_cons] at hSound
    generalize hn : ts.length = n at *
    cases k with
    | zero =>
      obtain rfl : l = [] := List.length_eq_zero_iff.1 hl.1
      obtain ⟨hFresh, hSound⟩ := hSound
      obtain ⟨l', hDrop, hl'⟩ := drop_after hFresh
      rw [List.nil_append] at hChunk hRest
      rw [hChunk, dataInSocket_fresh hc hFresh, receivedFrom, ← hear_hear]
      exact ih (c := c.hear (heardBy ss n)) hc hl' (hRest.trans hDrop) hSound
    | succ k =>
      obtain ⟨s, hQuiet, i, hi, hInside, rfl⟩ := hl.2 (Nat.succ_ne_zero k)
      have hLength := hl.1
      rw [List.length_drop] at hLength
      rw [Sound] at hSound
      rw [receivedFrom]
      split
      case isTrue hLe =>
        rw [if_pos hLe] at hSound
        rw [List.take_append_of_le_length (by rw [List.length_drop]; omega)] at hChunk
        rw [List.drop_append_of_le_length (by rw [List.length_drop]; omega), List.drop_drop]
          at hRest
        have hMute := mute_inside account hQuiet
          (fun _ hs => absurd hs (List.not_mem_nil (a := _))) hi hInside n c hc
        rw [List.flatMap_nil, List.append_nil, ← hChunk] at hMute
        rw [hMute]
        refine ih hc ⟨?_, fun _ => ⟨s, hQuiet, i + n, by omega, by omega, rfl⟩⟩ hRest hSound
        rw [List.length_drop]
        omega
      case isFalse hGt =>
        rw [if_neg hGt] at hSound
        obtain ⟨m, rfl⟩ : ∃ m, n = k + 1 + m := ⟨n - (k + 1), by omega⟩
        rw [Nat.add_sub_cancel_left] at hSound ⊢
        rw [← hl.1, List.take_length_add_append, take_begun, ← List.take_length_add_append]
          at hChunk
        rw [← hl.1, List.drop_length_add_append] at hRest
        obtain ⟨l', hDrop, hl'⟩ := drop_after (freshSound_of_quiet hSound.1)
        rw [hChunk, mute_inside account hQuiet hSound.1 hi hInside _ c hc]
        exact ih hc hl' (hRest.trans hDrop) hSound.2

end BonjourContactConnection

/-! ## What is received and what was said -/

theorem length_spoken_take (t : Text) (n : Nat) :
    (BonjourContactConnection.spoken (t.take n)).length ≤
      (BonjourContactConnection.spoken t).length := by
  unfold BonjourContactConnection.spoken
  by_cases ht : t = []
  · exact Nat.le_of_eq (by rw [ht, List.take_nil])
  · rw [if_neg ht]
    split
    · exact Nat.zero_le _
    · exact Nat.le_refl _

theorem spoken_inj {t u : Text} (h : BonjourContactConnection.spoken t =
    BonjourContactConnection.spoken u) : t = u := by
  unfold BonjourContactConnection.spoken at h
  split at h
  case isTrue ht =>
    split at h
    case isTrue hu => rw [ht, hu]
    case isFalse => exact absurd h (by simp)
  case isFalse =>
    split at h
    · exact absurd h (by simp)
    · exact List.singleton_inj.1 h

namespace Stanza

theorem length_partly_le (s : Stanza) (n : Nat) : (s.partly n).length ≤ s.said.length := by
  cases s with
  | space | iq => exact Nat.le_refl _
  | message m => exact length_spoken_take m.body _

/-- All that is said is there exactly if it has been heard. -/
theorem partly_eq_said_iff {s : Stanza} {n : Nat} : s.partly n = s.said ↔ s.Heard n := by
  cases s with
  | space | iq => exact iff_of_true rfl trivial
  | message m =>
    show BonjourContactConnection.spoken _ = BonjourContactConnection.spoken _ ↔ _ ∨ _
    constructor
    · intro h
      by_contra hNot
      rw [not_or] at hNot
      have hLength := congrArg List.length (spoken_inj h)
      have hPos := List.length_pos_of_ne_nil hNot.1
      rw [List.length_take] at hLength
      omega
    · rintro (h | h)
      · rw [h, List.take_nil]
      · rw [List.take_of_length_le (by omega)]

end Stanza

/-- All that is said by the stanzas. -/
def allSaid (ss : List Stanza) : List Text := ss.flatMap Stanza.said

theorem allSaid_begun (ss : List Stanza) (n : Nat) :
    allSaid ss = allSaid (begun ss n) ++ allSaid (after ss n).2 := by
  rw [allSaid, allSaid, allSaid, ← List.flatMap_append, begun_append_after]

theorem length_heardBy_le (ss : List Stanza) (n : Nat) :
    (heardBy ss n).length + (allSaid (after ss n).2).length ≤ (allSaid ss).length := by
  induction ss generalizing n with
  | nil => exact Nat.le_refl _
  | cons s ss ih =>
    rw [heardBy, after]
    split
    · exact Nat.le_of_eq (Nat.zero_add _)
    · have hSaid : (allSaid (s :: ss)).length = s.said.length + (allSaid ss).length := by
        rw [allSaid, List.flatMap_cons, List.length_append]
        rfl
      split
      · have hRest := ih (n - s.tokens.length)
        rw [List.length_append]
        omega
      · have hPartly := s.length_partly_le n
        show (s.partly n).length + (allSaid ss).length ≤ _
        omega

/-- What is received of a segment that begins between stanzas is all that is said there,
exactly if it is timely. -/
theorem heardBy_append_iff {ss : List Stanza} {n : Nat} {xs : List Text}
    (hxs : xs.length ≤ (allSaid (after ss n).2).length) :
    heardBy ss n ++ xs = allSaid ss ↔ FreshTimely ss n ∧ xs = allSaid (after ss n).2 := by
  induction ss generalizing n with
  | nil => exact ⟨fun h => ⟨trivial, h⟩, fun h => h.2⟩
  | cons s ss ih =>
    rw [heardBy, FreshTimely]
    rw [after] at hxs ⊢
    split
    case isTrue hNone =>
      exact ⟨fun h => ⟨.inl hNone, h⟩, fun h => h.2⟩
    case isFalse hSome =>
      rw [if_neg hSome] at hxs
      have hOr : ∀ p : Prop, (n = 0 ∨ p) ↔ p := fun p => or_iff_right hSome
      have hSaid : allSaid (s :: ss) = s.said ++ allSaid ss := List.flatMap_cons
      rw [hOr, hSaid]
      split
      case isTrue hWhole =>
        rw [if_pos hWhole] at hxs
        rw [List.append_assoc, List.append_cancel_left_eq]
        exact ih hxs
      case isFalse hCut =>
        rw [if_neg hCut] at hxs
        have hRest : xs.length ≤ (allSaid ss).length := hxs
        rw [← Stanza.partly_eq_said_iff]
        constructor
        · intro h
          have hLength := congrArg List.length h
          rw [List.length_append, List.length_append] at hLength
          have hPartly := s.length_partly_le n
          exact List.append_inj h (by omega)
        · rintro ⟨hPartly, hRest⟩
          rw [hPartly, hRest]

theorem length_receivedFrom_le (k : Nat) (ss : List Stanza) (ns : List Nat) :
    (receivedFrom k ss ns).length ≤ (allSaid ss).length := by
  induction ns generalizing k ss with
  | nil =>
    rw [receivedFrom]
    exact Nat.zero_le _
  | cons n ns ih =>
    cases k with
    | zero =>
      rw [receivedFrom, List.length_append]
      exact Nat.le_trans (Nat.add_le_add_left (ih _ _) _) (length_heardBy_le ss n)
    | succ k =>
      rw [receivedFrom]
      split
      · exact ih _ _
      · refine Nat.le_trans (ih _ _) ?_
        rw [allSaid_begun ss (n - (k + 1)), List.length_append]
        exact Nat.le_add_left _ _

theorem allSaid_eq_nil {ss : List Stanza} : allSaid ss = [] ↔ ∀ s ∈ ss, s.said = [] :=
  List.flatMap_eq_nil_iff

theorem length_after (ss : List Stanza) {n : Nat} (h : n ≤ (ss.flatMap Stanza.tokens).length) :
    n + ((after ss n).1 + ((after ss n).2.flatMap Stanza.tokens).length) =
      (ss.flatMap Stanza.tokens).length := by
  induction ss generalizing n with
  | nil => exact Nat.le_zero.1 h
  | cons s ss ih =>
    rw [List.flatMap_cons, List.length_append] at h ⊢
    rw [after]
    split
    case isTrue hNone =>
      rw [hNone, List.flatMap_cons, List.length_append]
      exact (Nat.zero_add _).trans (Nat.zero_add _)
    case isFalse =>
      split
      case isTrue hWhole =>
        have hRest := ih (n := n - s.tokens.length) (by omega)
        omega
      case isFalse hCut =>
        show n + (s.tokens.length - n + (ss.flatMap Stanza.tokens).length) = _
        omega

/-- **All that is said is received** exactly if the cuts do no harm. -/
theorem receivedFrom_iff {k : Nat} {ss : List Stanza} {ns : List Nat}
    (hSum : ns.sum = k + (ss.flatMap Stanza.tokens).length) :
    receivedFrom k ss ns = allSaid ss ↔ Timely k ss ns := by
  induction ns generalizing k ss with
  | nil =>
    cases ss with
    | nil => cases k <;> exact iff_of_true rfl trivial
    | cons s ss =>
      rw [List.flatMap_cons, List.length_append, List.sum_nil] at hSum
      exact absurd (by omega) (length_tokens_pos s)
  | cons n ns ih =>
    rw [List.sum_cons] at hSum
    cases k with
    | zero =>
      have hAfter := length_after ss (n := n) (by omega)
      rw [receivedFrom, Timely, heardBy_append_iff (length_receivedFrom_le _ _ _),
        ih (by omega)]
    | succ k =>
      rw [receivedFrom, Timely]
      split
      case isTrue => exact ih (by omega)
      case isFalse =>
        have hAfter := length_after ss (n := n - (k + 1)) (by omega)
        rw [← ih (by omega), ← allSaid_eq_nil, allSaid_begun ss (n - (k + 1))]
        constructor
        · intro h
          have hLe := length_receivedFrom_le (after ss (n - (k + 1))).1
            (after ss (n - (k + 1))).2 ns
          rw [h, List.length_append] at hLe
          have hNone : allSaid (begun ss (n - (k + 1))) = [] :=
            List.length_eq_zero_iff.1 (by omega)
          rw [hNone] at h
          exact ⟨hNone, h⟩
        · rintro ⟨hNone, h⟩
          rw [hNone, h]
          rfl

/-! ## The beginning of the stream -/

/-- How a connection comes about. -/
inductive Opening where
  | incoming (hostAddress : Nat)
  | outgoing (hostAddress : Nat) (alocal aremote : Text)

namespace Opening

def connection : Opening → BonjourContactConnection
  | .incoming hostAddress => .incoming hostAddress
  | .outgoing hostAddress alocal aremote => .outgoing hostAddress alocal aremote

/-- The connection has a contact when the tag of the stream has been read: it was made for
one, or the account finds the one that the tag names, or one that has the address. -/
def HasContact (account : BonjourAccount) (attributes : List (String × Text)) : Opening → Prop
  | .outgoing _ _ _ => True
  | .incoming hostAddress =>
    if value attributes "to" ≠ [] ∧ value attributes "from" ≠ [] then
      (BonjourContactConnection.verifyUser account (.incoming hostAddress)
        (value attributes "from")).isSome = true
    else account.getContactsByAddress hostAddress ≠ []

instance (account : BonjourAccount) (attributes : List (String × Text)) (o : Opening) :
    Decidable (o.HasContact account attributes) := by
  cases o <;> unfold HasContact <;> infer_instance

end Opening

/-- Chunks of tokens without the first `h` of the tokens. -/
def strip : Nat → List (List Token) → List (List Token)
  | _, [] => []
  | h, ts :: chunks =>
    if ts.length < h then strip (h - ts.length) chunks else ts.drop h :: chunks

theorem flatten_strip (h : Nat) (chunks : List (List Token)) :
    (strip h chunks).flatten = chunks.flatten.drop h := by
  induction chunks generalizing h with
  | nil => exact List.drop_nil.symm
  | cons ts chunks ih =>
    rw [strip]
    split
    case isTrue hLt =>
      obtain ⟨i, rfl⟩ : ∃ i, h = ts.length + i := ⟨h - ts.length, by omega⟩
      rw [ih, List.flatten_cons, List.drop_length_add_append, Nat.add_sub_cancel_left]
    case isFalse hGe =>
      rw [List.flatten_cons, List.flatten_cons, List.drop_append_of_le_length (by omega)]

namespace BonjourContactConnection

variable (account : BonjourAccount) {c : BonjourContactConnection} {ts : List Token}

/-- The tag of the stream. -/
def streamTag (attributes : List (String × Text)) : Token :=
  .startElement "stream:stream" attributes

/-- The connection after the tag of the stream. -/
def opened (c : BonjourContactConnection) (attributes : List (String × Text)) :
    BonjourContactConnection := c.streamTagFound account (xmlToken (streamTag attributes))

theorem dataInSocket_skips {q : List Token} (h : ∀ t ∈ q, ¬ (xmlToken t).is .startOrEndElement) :
    (c.reading (q ++ ts)).dataInSocket account = (c.reading ts).dataInSocket account := by
  induction q with
  | nil => rfl
  | cons t q ih =>
    rw [List.cons_append, dataInSocket_skip account (h t List.mem_cons_self)]
    exact ih fun u hu => h u (List.mem_cons_of_mem _ hu)

variable (hNew : c.connectionState = .newIncoming ∨ c.connectionState = .newOutgoing)

include hNew in
theorem dataInSocket_streamTag (attributes : List (String × Text)) :
    (c.reading (streamTag attributes :: ts)).dataInSocket account =
      ((c.opened account attributes).reading ts).dataInSocket account := by
  rw [dataInSocket_tag account (t := streamTag attributes) rfl]
  have hHandle : (c.reading ts).handle account (xmlToken (streamTag attributes)) =
      (c.reading ts).getStreamTag account (xmlToken (streamTag attributes)) := by
    have hState : (c.reading ts).connectionState = c.connectionState := rfl
    unfold handle
    rw [hState]
    rcases hNew with h | h <;> rw [h]
  rw [hHandle]
  show ((c.reading ts).streamTagFound account (xmlToken (streamTag attributes))).dataInSocket
    account = _
  rw [streamTagFound_reading]
  rfl

include hNew in
/-- **The beginning of the stream**, in however many segments: after it the connection goes on
with the rest. -/
theorem receive_beginning {attributes : List (String × Text)} {q : List Token}
    (hq : ∀ t ∈ q, ¬ (xmlToken t).is .startOrEndElement) {rest : List Token}
    {chunks : List (List Token)}
    (hFlat : chunks.flatten = q ++ streamTag attributes :: rest) :
    chunks.foldl (segment account) (c.reading []) =
      (strip (q.length + 1) chunks).foldl (segment account)
        ((c.opened account attributes).reading []) := by
  induction chunks generalizing q with
  | nil => exact absurd hFlat.symm (by simp)
  | cons ts chunks ih =>
    have hChunk : ts = (q ++ streamTag attributes :: rest).take ts.length := by
      rw [← hFlat, List.flatten_cons, List.take_left]
    have hRest : chunks.flatten = (q ++ streamTag attributes :: rest).drop ts.length := by
      rw [← hFlat, List.flatten_cons, List.drop_left]
    rw [List.foldl_cons, segment_reading, strip]
    split
    case isTrue hLt =>
      rw [List.take_append_of_le_length (by omega)] at hChunk
      rw [List.drop_append_of_le_length (by omega)] at hRest
      have hNoTag : ∀ t ∈ ts, ¬ (xmlToken t).is .startOrEndElement := by
        intro t ht
        rw [hChunk] at ht
        exact hq t (List.mem_of_mem_take ht)
      have hNothing : (c.reading (ts ++ [.prematureEnd])).dataInSocket account = c.reading [] := by
        rw [dataInSocket_skips account hNoTag, dataInSocket_skip account (t := .prematureEnd) Bool.false_ne_true]
        exact dataInSocket_atEnd account _ rfl
      rw [hNothing, ih (q := q.drop ts.length)
        (fun t ht => hq t (List.mem_of_mem_drop ht)) hRest, List.length_drop]
      congr 2
      omega
    case isFalse hGe =>
      obtain ⟨i, hi⟩ : ∃ i, ts.length = q.length + (i + 1) := ⟨ts.length - q.length - 1, by omega⟩
      rw [hi, List.take_length_add_append, List.take_succ_cons] at hChunk
      rw [hChunk, List.foldl_cons, segment_reading, List.append_assoc,
        dataInSocket_skips account hq, List.cons_append, dataInSocket_streamTag account hNew]
      have hDrop : (q ++ streamTag attributes :: List.take i rest).drop (q.length + 1) =
          rest.take i := by
        rw [List.drop_length_add_append]
        rfl
      rw [hDrop]

end BonjourContactConnection

/-! ## Transmissions -/

/-- A stream of stanzas, the pieces of bytes that the reader takes its tokens from, and the
segments that the bytes come in. -/
structure Transmission where
  attributes : List (String × Text)
  stanzas : List Stanza
  pieces : List Piece
  tokens_eq : pieces.map (·.token) = .startDocument ::
    BonjourContactConnection.streamTag attributes :: stanzas.flatMap Stanza.tokens
  segments : List (List UInt8)
  segments_ne : segments ≠ []
  bytes_eq : segments.flatten = pieces.flatMap (·.bytes)

namespace Transmission

/-- The tokens that each segment brings. -/
def chunks (T : Transmission) : List (List Token) := arrivals T.pieces 0 T.segments

/-- How many tokens of the stanzas each segment brings. -/
def sizes (T : Transmission) : List Nat := (strip 2 T.chunks).map List.length

def Sound (T : Transmission) : Prop := Bonjour.Sound 0 T.stanzas T.sizes

def Timely (T : Transmission) : Prop := Bonjour.Timely 0 T.stanzas T.sizes

theorem flatten_chunks (T : Transmission) :
    T.chunks.flatten = .startDocument ::
      BonjourContactConnection.streamTag T.attributes :: T.stanzas.flatMap Stanza.tokens := by
  rw [← T.tokens_eq]
  exact flatten_arrivals T.pieces 0 T.segments_ne
    ((Nat.zero_add _).trans (congrArg List.length T.bytes_eq))

theorem flatten_strip_chunks (T : Transmission) :
    (strip 2 T.chunks).flatten = T.stanzas.flatMap Stanza.tokens := by
  rw [flatten_strip, T.flatten_chunks]
  rfl

theorem sum_sizes (T : Transmission) :
    T.sizes.sum = 0 + (T.stanzas.flatMap Stanza.tokens).length := by
  rw [Nat.zero_add, ← T.flatten_strip_chunks, List.length_flatten]
  rfl

/-- What the connection has received when all segments have come. -/
def received (account : BonjourAccount) (o : Opening) (T : Transmission) : List Text :=
  (T.chunks.foldl (BonjourContactConnection.segment account) o.connection).received

/-- Each message with a text has been received, once and in order, if the connection has a
contact that the messages are from. -/
def Delivered (account : BonjourAccount) (o : Opening) (T : Transmission) : Prop :=
  received account o T = if o.HasContact account T.attributes then allSaid T.stanzas else []

end Transmission

namespace BonjourContactConnection

variable (account : BonjourAccount)

theorem opened_incoming (hostAddress : Nat) (attributes : List (String × Text)) :
    (incoming hostAddress).opened account attributes =
      let c := { incoming hostAddress with
        remote := value attributes "from", «local» := value attributes "to" }
      if value attributes "to" ≠ [] ∧ value attributes "from" ≠ [] then
        (discoveredUserName account { c with connectionState := .connected }
          (value attributes "from")).sayStream
      else (usernameNotInStream account { c with connectionState := .toWho }).sayStream := by
  have hNew : (incoming hostAddress).connectionState ≠ .newOutgoing := by
    show BonjourConnectionState.newIncoming ≠ _
    decide
  unfold opened streamTagFound
  rw [if_neg hNew]
  rfl

theorem opened_contact {o : Opening} {attributes : List (String × Text)}
    (h : o.HasContact account attributes) :
    (o.connection.opened account attributes).received = [] ∧
      (o.connection.opened account attributes).connectionState = .connected ∧
      (o.connection.opened account attributes).parent = true := by
  cases o with
  | outgoing hostAddress alocal aremote => exact ⟨rfl, rfl, rfl⟩
  | incoming hostAddress =>
    rw [Opening.HasContact] at h
    rw [Opening.connection, opened_incoming]
    dsimp only
    split at h
    case isTrue hNames =>
      rw [if_pos hNames]
      unfold discoveredUserName
      split
      · exact ⟨rfl, rfl, rfl⟩
      · exact absurd h ‹_›
    case isFalse hNames =>
      rw [if_neg hNames]
      unfold usernameNotInStream
      split
      · exact absurd ‹_› h
      · exact ⟨rfl, rfl, rfl⟩

theorem opened_noContact {o : Opening} {attributes : List (String × Text)}
    (h : ¬ o.HasContact account attributes) :
    (o.connection.opened account attributes).received = [] ∧
      (o.connection.opened account attributes).parent = false ∧
      ((o.connection.opened account attributes).connectionState = .connected ∨
        (o.connection.opened account attributes).connectionState = .toWho) := by
  cases o with
  | outgoing hostAddress alocal aremote => exact absurd trivial h
  | incoming hostAddress =>
    rw [Opening.HasContact] at h
    rw [Opening.connection, opened_incoming]
    dsimp only
    split at h
    case isTrue hNames =>
      rw [if_pos hNames]
      unfold discoveredUserName
      split
      · exact absurd ‹_› h
      · exact ⟨rfl, rfl, .inl rfl⟩
    case isFalse hNames =>
      rw [if_neg hNames]
      unfold usernameNotInStream
      split
      case _ => exact ⟨rfl, rfl, .inr rfl⟩
      case _ contact others hSome =>
        have hFound : account.getContactsByAddress hostAddress = contact :: others := hSome
        rw [hFound] at h
        exact absurd (by simp) h

/-- Without a contact, and without knowing which one to look for, nothing is read. -/
theorem dataInSocket_toWho {c : BonjourContactConnection} (hc : c.connectionState = .toWho)
    (ts : List Token) : (c.reading ts).dataInSocket account = c.reading [] := by
  induction ts with
  | nil => exact dataInSocket_atEnd account _ rfl
  | cons t ts ih =>
    by_cases hTag : (xmlToken t).is .startOrEndElement
    · rw [dataInSocket_tag account hTag]
      have hHandle : (c.reading ts).handle account (xmlToken t) = c.reading ts := by
        have hState : (c.reading ts).connectionState = .toWho := hc
        unfold handle
        rw [hState]
        rfl
      rw [hHandle, ih]
    · rw [dataInSocket_skip account hTag, ih]

theorem receive_toWho {c : BonjourContactConnection} (hc : c.connectionState = .toWho)
    (chunks : List (List Token)) :
    chunks.foldl (segment account) (c.reading []) = c.reading [] := by
  induction chunks with
  | nil => rfl
  | cons ts chunks ih => rw [List.foldl_cons, segment_reading, dataInSocket_toWho account hc, ih]

end BonjourContactConnection

namespace Transmission

/-- **What is received** in a whole transmission. -/
theorem received_eq (account : BonjourAccount) (o : Opening) {T : Transmission} (h : T.Sound) :
    received account o T =
      if o.HasContact account T.attributes then receivedFrom 0 T.stanzas T.sizes else [] := by
  have hNew : o.connection.connectionState = .newIncoming ∨
      o.connection.connectionState = .newOutgoing := by
    cases o with
    | incoming => exact .inl rfl
    | outgoing => exact .inr rfl
  have hStart : o.connection = o.connection.reading [] := by cases o <;> rfl
  have hNoTag : ∀ t ∈ [Token.startDocument], ¬ (xmlToken t).is .startOrEndElement := by
    intro t ht
    rw [List.mem_singleton.1 ht]
    exact Bool.false_ne_true
  unfold received
  rw [hStart, BonjourContactConnection.receive_beginning account hNew hNoTag T.flatten_chunks]
  have hRead := fun hc => BonjourContactConnection.receive_eq account
    (c := o.connection.opened account T.attributes) hc leftover_nil
    (T.flatten_strip_chunks.trans (List.nil_append _).symm) h
  split
  case isTrue hContact =>
    obtain ⟨hReceived, hConnected, hParent⟩ :=
      BonjourContactConnection.opened_contact account hContact
    have hTexts : (if (o.connection.opened account T.attributes).parent then
        receivedFrom 0 T.stanzas T.sizes else []) = receivedFrom 0 T.stanzas T.sizes :=
      if_pos hParent
    show BonjourContactConnection.received (List.foldl _ _ (strip 2 T.chunks)) = _
    rw [hRead hConnected]
    show (o.connection.opened account T.attributes).received ++ (if _ then _ else _) = _
    rw [hReceived, List.nil_append]
    exact hTexts
  case isFalse hNone =>
    obtain ⟨hReceived, hParent, hConnected | hToWho⟩ :=
      BonjourContactConnection.opened_noContact account hNone
    · have hTexts : (if (o.connection.opened account T.attributes).parent then
          receivedFrom 0 T.stanzas T.sizes else []) = [] :=
        if_neg (by rw [hParent]; exact Bool.false_ne_true)
      show BonjourContactConnection.received (List.foldl _ _ (strip 2 T.chunks)) = _
      rw [hRead hConnected]
      show (o.connection.opened account T.attributes).received ++ (if _ then _ else _) = _
      rw [hReceived, List.nil_append]
      exact hTexts
    · rw [BonjourContactConnection.receive_toWho account hToWho]
      exact hReceived

/-- **Messages in segments.** Each chat message with a text is received once, in order and
with that text, if the stanzas are told apart by their tags and the cuts do no harm; and, if
they are told apart, only then. -/
theorem transmitted_iff (account : BonjourAccount) (o : Opening) (T : Transmission) :
    (T.Sound ∧ T.Timely → Delivered account o T) ∧
      (T.Sound → o.HasContact account T.attributes → Delivered account o T → T.Timely) := by
  have hIff := receivedFrom_iff T.sum_sizes
  constructor
  · rintro ⟨hSound, hTimely⟩
    unfold Delivered
    rw [received_eq account o hSound, hIff.2 hTimely]
  · intro hSound hContact hDelivered
    unfold Delivered at hDelivered
    rw [received_eq account o hSound, if_pos hContact, if_pos hContact] at hDelivered
    exact hIff.1 hDelivered

/-- A piece in ASCII. -/
def ascii (token : Token) (s : String) : Piece := ⟨token, s.toList.map fun c => UInt8.ofNat c.toNat⟩

/-- A message whose tag comes in one segment and whose body comes in the next one. -/
def cutMessage : Transmission where
  attributes := []
  stanzas := [.message ⟨[], [], [], ['h', 'i'], [], .inr rfl⟩]
  pieces := [ascii .startDocument "",
    ascii (BonjourContactConnection.streamTag []) "<stream:stream xmlns:stream='s'>",
    ascii (.startElement "message" []) "<message>", ascii (.startElement "body" []) "<body>",
    ascii (.character 'h') "h", ascii (.character 'i') "i", ascii (.endElement "body") "</body>",
    ascii (.endElement "message") "</message>"]
  tokens_eq := rfl
  segments := [(ascii .comment "<stream:stream xmlns:stream='s'><message>").bytes,
    (ascii .comment "<body>hi</body></message>").bytes]
  segments_ne := by simp
  bytes_eq := by decide

theorem cutMessage_lost :
    ¬ Delivered ⟨[], []⟩ (.outgoing 1 "me".toList "you".toList) cutMessage := by
  have hSizes : cutMessage.sizes = [1, 5] := by decide
  have hSound : cutMessage.Sound := by
    unfold Sound
    rw [hSizes]
    exact ⟨.inr ⟨rfl, rfl, fun t ht => absurd ht List.not_mem_nil⟩,
      fun s hs => absurd hs List.not_mem_nil, trivial⟩
  unfold Delivered
  rw [received_eq _ _ hSound, hSizes]
  decide

end Transmission

end Bonjour
