import Mathlib

/-!
# Readers that count what they ask for

A reader takes items off the front of its input and counts the items it asked
for. A read past the end takes what is there and succeeds all the same, so the
count may run ahead of the input: the reader has read over the end.

Main results:

* `Regular.bind` — a reader that stayed within its input does the same whatever
  follows the input;
* `Hungry.bind` — one that ends with a guarded read never reads over the end;
* `Laid.overRead_iff` — one made of items reads over the end exactly where the
  input ends inside its last item.
-/

namespace CountedReader

/-- A state of the caller's, the count, and the input that is left. -/
structure Cursor (σ β : Type) where
  state : σ
  count : Nat
  rest : List β
deriving DecidableEq, Repr

variable {σ β α γ : Type}

/-- Go on by `n` items, or as many as there are. -/
def Cursor.advance (c : Cursor σ β) (n : Nat) : Cursor σ β :=
  { c with count := c.count + n, rest := c.rest.drop n }

@[simp] theorem Cursor.advance_zero (c : Cursor σ β) : c.advance 0 = c := rfl

theorem Cursor.advance_advance (c : Cursor σ β) (n m : Nat) :
    (c.advance n).advance m = c.advance (n + m) := by
  simp [Cursor.advance, Nat.add_assoc]

/-- A reader: a value or failure, and where it leaves off. -/
def Reader (σ β α : Type) := Cursor σ β → Option α × Cursor σ β

instance : Monad (Reader σ β) where
  pure a c := (some a, c)
  bind x f c :=
    match x c with
    | (none, d) => (none, d)
    | (some a, d) => f a d

theorem Reader.bind_assoc {δ : Type} (x : Reader σ β α) (f : α → Reader σ β γ)
    (g : γ → Reader σ β δ) : x >>= f >>= g = x >>= fun a => f a >>= g := by
  funext c
  show (match (match x c with | (none, d) => (none, d) | (some a, d) => f a d) with
    | (none, d) => (none, d) | (some b, d) => g b d) =
    (match x c with | (none, d) => (none, d) | (some a, d) => (f a >>= g) d)
  rcases x c with ⟨_ | a, d⟩ <;> rfl

/-- Give up. -/
def fail : Reader σ β α := fun c => (none, c)

theorem pure_apply (a : α) (c : Cursor σ β) : (pure a : Reader σ β α) c = (some a, c) := rfl

theorem bind_some {x : Reader σ β α} {f : α → Reader σ β γ} {c d : Cursor σ β} {a : α}
    (h : x c = (some a, d)) : (x >>= f) c = f a d := by
  show (match x c with | (none, d) => (none, d) | (some a, d) => f a d) = _
  rw [h]

theorem bind_none {x : Reader σ β α} {f : α → Reader σ β γ} {c d : Cursor σ β}
    (h : x c = (none, d)) : (x >>= f) c = (none, d) := by
  show (match x c with | (none, d) => (none, d) | (some a, d) => f a d) = _
  rw [h]

/-- A success has passed through one of the first reader. -/
theorem of_bind {x : Reader σ β α} {f : α → Reader σ β γ} {c e : Cursor σ β} {b : γ}
    (h : (x >>= f) c = (some b, e)) : ∃ a d, x c = (some a, d) ∧ f a d = (some b, e) := by
  rcases hx : x c with ⟨_ | a, d⟩
  · rw [bind_none hx] at h
    cases h
  · exact ⟨a, d, rfl, by rwa [bind_some hx] at h⟩

/-- Two readers that agree, and continuations that agree where they can lead. -/
theorem bind_congr {x y : Reader σ β α} {f g : α → Reader σ β γ} {c : Cursor σ β} (hxy : x c = y c)
    (h : ∀ a d, x c = (some a, d) → f a d = g a d) : (x >>= f) c = (y >>= g) c := by
  rcases hx : x c with ⟨_ | a, d⟩
  · rw [bind_none hx, bind_none (hxy ▸ hx)]
  · rw [bind_some hx, bind_some (hxy ▸ hx), h a d hx]

/-! ## Regular readers -/

/-- A success only goes on, and if it stayed within the input it is the same
from any state and with any items behind. -/
def Regular (x : Reader σ β α) : Prop :=
  ∀ c a d, x c = (some a, d) → ∃ n, d = c.advance n ∧
    (n ≤ c.rest.length → ∀ s k ys, x ⟨s, k, c.rest ++ ys⟩ =
      (some a, ⟨s, k + n, c.rest.drop n ++ ys⟩))

theorem Regular.length_le {x : Reader σ β α} (h : Regular x) {c d : Cursor σ β} {a : α}
    (hx : x c = (some a, d)) : d.rest.length ≤ c.rest.length := by
  obtain ⟨n, rfl, -⟩ := h c a d hx
  simp [Cursor.advance]

theorem Regular.pure (a : α) : Regular (pure a : Reader σ β α) := by
  intro c b d h
  rw [pure_apply, Prod.mk.injEq, Option.some.injEq] at h
  obtain ⟨rfl, rfl⟩ := h
  exact ⟨0, rfl, fun _ s k ys => rfl⟩

theorem Regular.fail : Regular (fail : Reader σ β α) := by
  intro c a d h
  cases h

/-- **Regular readers compose.** -/
theorem Regular.bind {x : Reader σ β α} {f : α → Reader σ β γ} (hx : Regular x)
    (hf : ∀ a, Regular (f a)) : Regular (x >>= f) := by
  intro c b e h
  obtain ⟨a, d, hFirst, hSecond⟩ := of_bind h
  obtain ⟨n, rfl, hn⟩ := hx c a d hFirst
  obtain ⟨m, rfl, hm⟩ := hf a _ b e hSecond
  refine ⟨n + m, c.advance_advance n m, fun hle s k ys => ?_⟩
  have hlen : (c.advance n).rest.length = c.rest.length - n := List.length_drop
  rw [bind_some (hn (by omega) s k ys)]
  have hNext := hm (by omega) s (k + n) ys
  rw [show (c.advance n).rest = c.rest.drop n from rfl, List.drop_drop] at hNext
  rw [hNext, Nat.add_assoc]

/-- A guarded choice of regular readers. -/
theorem Regular.ite {p : Prop} [Decidable p] {x y : Reader σ β α} (hx : Regular x)
    (hy : Regular y) : Regular (if p then x else y) := by
  split
  · exact hx
  · exact hy

/-! ## Staying within the input -/

/-- No success reads over the end. -/
def Within (x : Reader σ β α) : Prop :=
  ∀ c a d, x c = (some a, d) → d.count ≤ c.count + c.rest.length

/-- Every success takes an item, and none reads over the end. -/
def Hungry (x : Reader σ β α) : Prop :=
  ∀ c a d, x c = (some a, d) → c.count < d.count ∧ d.count ≤ c.count + c.rest.length

theorem Hungry.within {x : Reader σ β α} (h : Hungry x) : Within x :=
  fun c a d hx => (h c a d hx).2

theorem Within.fail : Within (fail : Reader σ β α) := by
  intro c a d h
  cases h

theorem Within.pure (a : α) : Within (pure a : Reader σ β α) := by
  intro c b d h
  rw [pure_apply, Prod.mk.injEq] at h
  rw [← h.2]
  exact Nat.le_add_right _ _

theorem Within.bind {x : Reader σ β α} {f : α → Reader σ β γ} (hReg : Regular x) (hx : Within x)
    (hf : ∀ a, Within (f a)) : Within (x >>= f) := by
  intro c b e h
  obtain ⟨a, d, hFirst, hSecond⟩ := of_bind h
  have hle := hx c a d hFirst
  obtain ⟨n, rfl, -⟩ := hReg c a d hFirst
  have hrest := hf a _ b e hSecond
  simp only [Cursor.advance, List.length_drop] at hle hrest
  omega

/-- After a first item, staying within is enough. -/
theorem Hungry.bind {x : Reader σ β α} {f : α → Reader σ β γ} (hReg : Regular x) (hx : Hungry x)
    (hfReg : ∀ a, Regular (f a)) (hf : ∀ a, Within (f a)) : Hungry (x >>= f) := by
  intro c b e h
  refine ⟨?_, Within.bind hReg hx.within hf c b e h⟩
  obtain ⟨a, d, hFirst, hSecond⟩ := of_bind h
  have hlt := (hx c a d hFirst).1
  obtain ⟨n, rfl, -⟩ := hfReg a d b e hSecond
  exact Nat.lt_of_lt_of_le hlt (Nat.le_add_right _ _)

/-- Whatever the first reader asks for, a hungry one behind it finds out. -/
theorem Hungry.of_bind {x : Reader σ β α} {f : α → Reader σ β γ} (hReg : Regular x)
    (hf : ∀ a, Hungry (f a)) : Hungry (x >>= f) := by
  intro c b e h
  obtain ⟨a, d, hFirst, hSecond⟩ := CountedReader.of_bind h
  obtain ⟨n, rfl, -⟩ := hReg c a d hFirst
  have hrest := hf a _ b e hSecond
  simp only [Cursor.advance, List.length_drop] at hrest
  omega

/-! ## Items -/

/-- A kind of item: how long the one at the front of the input is, if all of it
is there, and where the input ends inside of it. -/
structure Item (β : Type) where
  size : List β → Option Nat
  Cut : List β → Prop

/-- A reader of an item. It reads over the end where the input ends inside the
item; `ended` is the state it may leave on failure. -/
structure Reads (ended : σ) (item : Item β) (x : Reader σ β α) : Prop where
  regular : Regular x
  whole : ∀ {c n}, item.size c.rest = some n →
    n ≤ c.rest.length ∧ ∃ a, x c = (some a, c.advance n)
  cut : ∀ {c}, item.Cut c.rest → ∃ a n, x c = (some a, c.advance n) ∧ c.rest.length < n
  fails : ∀ {c}, item.size c.rest = none → ¬ item.Cut c.rest →
    ∃ d, x c = (none, d) ∧ (d.state = c.state ∨ d.state = ended)
  nil : item.size [] = none ∧ ¬ item.Cut []

/-- A reader made of items, one after the other. -/
inductive Laid (ended : σ) : List (Item β) → Reader σ β α → Prop
  | done (a : α) : Laid ended [] (pure a)
  | item {i : Item β} {items : List (Item β)} {γ : Type} {x : Reader σ β γ}
      {f : γ → Reader σ β α} (hx : Reads ended i x) (hf : ∀ a, Laid ended items (f a)) :
      Laid ended (i :: items) (x >>= f)

/-- The input ends inside the last of the items. -/
def EndsInLast : List (Item β) → List β → Prop
  | [], _ => False
  | [i], w => i.Cut w
  | i :: items, w => ∃ n, i.size w = some n ∧ EndsInLast items (w.drop n)

/-- The reader succeeds, and has read over the end. -/
def OverRead (x : Reader σ β α) (c : Cursor σ β) : Prop :=
  ∃ a d, x c = (some a, d) ∧ c.count + c.rest.length < d.count

variable {ended : σ} {items : List (Item β)} {x : Reader σ β α}

theorem Laid.regular (h : Laid ended items x) : Regular x := by
  induction h with
  | done a => exact Regular.pure a
  | item hx _ ih => exact hx.regular.bind ih

theorem Laid.eq_pure (h : Laid ended [] x) : ∃ a, x = pure a := by
  cases h with
  | done a => exact ⟨a, rfl⟩

/-- Without input there is no item to read. -/
theorem Laid.fails_at_end {i : Item β} (h : Laid ended (i :: items) x) {c : Cursor σ β}
    (hc : c.rest = []) : ∃ d, x c = (none, d) := by
  cases h with
  | item hx hf =>
    obtain ⟨d, hd, -⟩ := hx.fails (c := c) (hc ▸ hx.nil.1) (hc ▸ hx.nil.2)
    exact ⟨d, bind_none hd⟩

/-- A failure leaves the state, or says that the input has ended. -/
theorem Laid.state (h : Laid ended items x) {c d : Cursor σ β} (hd : x c = (none, d)) :
    d.state = c.state ∨ d.state = ended := by
  induction h generalizing c with
  | done a => cases hd
  | @item i items γ y f hx hf ih =>
    rcases hy : y c with ⟨_ | a, e⟩
    · rw [bind_none hy, Prod.mk.injEq] at hd
      obtain rfl := hd.2
      by_cases hsize : i.size c.rest = none
      · by_cases hcut : i.Cut c.rest
        · obtain ⟨a, n, hsome, -⟩ := hx.cut hcut
          rw [hy] at hsome
          cases hsome
        · obtain ⟨e', he', hstate⟩ := hx.fails hsize hcut
          rw [hy, Prod.mk.injEq] at he'
          rwa [he'.2]
      · obtain ⟨n, hn⟩ := Option.ne_none_iff_exists'.mp hsize
        obtain ⟨-, a, hsome⟩ := hx.whole hn
        rw [hy] at hsome
        cases hsome
    · rw [bind_some hy] at hd
      obtain ⟨n, rfl, -⟩ := hx.regular c a e hy
      have hState := ih a hd
      exact hState

/-- Behind a reader that stayed within the input. -/
theorem overRead_bind {y : Reader σ β γ} {f : γ → Reader σ β α} {c : Cursor σ β} {a : γ} {n : Nat}
    (hy : y c = (some a, c.advance n)) (hn : n ≤ c.rest.length) :
    OverRead (y >>= f) c ↔ OverRead (f a) (c.advance n) := by
  have hlen : (c.advance n).count + (c.advance n).rest.length = c.count + c.rest.length := by
    simp only [Cursor.advance, List.length_drop]
    omega
  rw [OverRead, OverRead, bind_some hy, hlen]

theorem not_overRead_bind {y : Reader σ β γ} {f : γ → Reader σ β α} {c d : Cursor σ β}
    (hy : y c = (none, d)) : ¬ OverRead (y >>= f) c := by
  rintro ⟨a, e, he, -⟩
  rw [bind_none hy] at he
  cases he

/-- **Reading over the end.** It happens exactly where the input ends inside the
last item. -/
theorem Laid.overRead_iff (h : Laid ended items x) (c : Cursor σ β) :
    OverRead x c ↔ EndsInLast items c.rest := by
  induction h generalizing c with
  | done a =>
    refine ⟨?_, False.elim⟩
    rintro ⟨b, d, hd, hlt⟩
    rw [pure_apply, Prod.mk.injEq] at hd
    rw [← hd.2] at hlt
    omega
  | @item i items γ y f hx hf ih =>
    by_cases hcut : i.Cut c.rest
    · obtain ⟨a, n, hy, hlt⟩ := hx.cut hcut
      have hNone : i.size c.rest = none := by
        by_contra hsize
        obtain ⟨m, hm⟩ := Option.ne_none_iff_exists'.mp hsize
        obtain ⟨hle, a', hy'⟩ := hx.whole hm
        rw [hy, Prod.mk.injEq] at hy'
        have hcount := congrArg Cursor.count hy'.2
        simp only [Cursor.advance] at hcount
        omega
      cases items with
      | nil =>
        -- the last item is the one that is cut
        refine ⟨fun _ => hcut, fun _ => ?_⟩
        obtain ⟨b, hb⟩ := (hf a).eq_pure
        refine ⟨b, c.advance n, ?_, Nat.add_lt_add_left hlt c.count⟩
        rw [bind_some hy, hb, pure_apply]
      | cons j items =>
        obtain ⟨d, hd⟩ := (hf a).fails_at_end (c := c.advance n)
          (List.drop_of_length_le (by omega))
        refine ⟨?_, ?_⟩
        · rintro ⟨b, e, he, -⟩
          rw [bind_some hy, hd] at he
          cases he
        · rintro ⟨m, hm, -⟩
          rw [hNone] at hm
          cases hm
    · by_cases hsize : i.size c.rest = none
      · obtain ⟨d, hy, -⟩ := hx.fails hsize hcut
        refine ⟨fun hOver => absurd hOver (not_overRead_bind hy), fun hEnds => ?_⟩
        cases items with
        | nil => exact absurd hEnds hcut
        | cons j items =>
          obtain ⟨m, hm, -⟩ := hEnds
          rw [hsize] at hm
          cases hm
      · obtain ⟨n, hn⟩ := Option.ne_none_iff_exists'.mp hsize
        obtain ⟨hle, a, hy⟩ := hx.whole hn
        rw [overRead_bind hy hle, ih a]
        cases items with
        | nil => exact ⟨False.elim, fun hEnds => absurd hEnds hcut⟩
        | cons j items =>
          refine ⟨fun hEnds => ⟨n, hn, hEnds⟩, ?_⟩
          rintro ⟨m, hm, hEnds⟩
          rw [hn, Option.some.injEq] at hm
          rwa [← hm] at hEnds

end CountedReader
