import Kopete.Lib.Html
import Kopete.Lib.QMap

/-!
# libkopete — properties and their serialized form

The persistent properties of a container are written into a map of texts, among other data:
type and key make the key of the entry, with underscores between them. Reading it back
splits the key at underscores, leaves empty parts out and takes the second part for the type
and the third for the key.

The values are QVariants, and a parameter.

Main results:

* `parseKey_entryKey` — which keys are taken apart again;
* `Serializable.restored` — a container while it is restored;
* `restores_iff` — when exactly the persistent properties are restored.
-/

namespace Kopete

open Html (Text latin1)

/-- `QVariant`: what a property container uses of it. A type is converted to by a name of it,
of which it may have several. -/
structure QVariants (V τ : Type) where
  type : V → τ
  typeName : τ → Text
  nameToType : Text → τ
  toString : V → Text
  isNull : V → Bool
  /-- `canConvert(QVariant::String)`. -/
  canConvertToString : V → Bool
  /-- `convert`, of a text. -/
  convert : τ → Text → Option V
  /-- `QVariant()`. -/
  invalid : V
  /-- `operator==`. -/
  same : V → V → Bool
  nameToType_typeName : ∀ v, isNull v = false → nameToType (typeName (type v)) = type v
  typeName_ne_nil : ∀ v, isNull v = false → typeName (type v) ≠ []
  type_convert : ∀ {t s v}, convert t s = some v → type v = t
  same_invalid : ∀ v, isNull v = false → same invalid v = false
  /-- No type with an underscore in its name has another name without one. -/
  plain_typeName : ∀ n, 95 ∉ n → 95 ∉ typeName (nameToType n)

/-- `PropertyTmpl`. -/
structure PropertyTmpl where
  key : Text
  persistent : Bool
deriving DecidableEq, Repr

/-- `Global::Properties`: the templates, each under its key; `none` is `PropertyTmpl::null`. -/
structure Templates where
  tmpl : Text → Option PropertyTmpl
  key_tmpl : ∀ {key t}, tmpl key = some t → t.key = key

/-- `Property`. -/
structure Property (V : Type) where
  tmpl : PropertyTmpl
  value : V

/-- `PropertyContainer`. -/
abbrev PropertyContainer (V : Type) := QMap Text (Property V)

namespace PropertyContainer

variable {V τ : Type} (q : QVariants V τ) (templates : Templates)

/-! ## Properties -/

/-- The values that `setProperty` takes for no value. -/
def isEmptyValue (v : V) : Bool := q.isNull v || q.canConvertToString v && (q.toString v).isEmpty

/-- `PropertyContainer::removeProperty`. -/
def removeProperty (c : PropertyContainer V) (tmpl : PropertyTmpl) : PropertyContainer V :=
  if tmpl.key ≠ [] ∧ (c.find? tmpl.key).isSome then c.erase tmpl.key else c

/-- `property(key).value()`. -/
def value (c : PropertyContainer V) (key : Text) : V :=
  ((c.find? key).map Property.value).getD q.invalid

/-- `PropertyContainer::setProperty`, for a template that is not null. -/
def setProperty (c : PropertyContainer V) (tmpl : PropertyTmpl) (v : V) : PropertyContainer V :=
  if tmpl.key = [] then c
  else if isEmptyValue q v then removeProperty c tmpl
  else if q.same (value q c tmpl.key) v then c
  else (c.erase tmpl.key).insert tmpl.key ⟨tmpl, v⟩

/-! ## The serialized form -/

/-- `QStringLiteral("prop_%1_%2").arg(typeName, key)`. -/
def entryKey (key : Text) (p : Property V) : Text :=
  latin1 "prop_" ++ q.typeName (q.type p.value) ++ [95] ++ key

/-- `PropertyContainer::serializeProperties`. -/
def serializeProperties (c : PropertyContainer V) (data : QMap Text Text) : QMap Text Text :=
  c.entries.foldl (fun data e =>
    if e.2.tmpl.persistent then data.insert (entryKey q e.1 e.2) (q.toString e.2.value)
    else data) data

/-- `split('_', QString::SkipEmptyParts)`, with what has been read of a part. -/
def split : Text → Text → List Text
  | part, [] => if part = [] then [] else [part]
  | part, c :: s =>
    if c = 95 then if part = [] then split [] s else part :: split [] s
    else split (part ++ [c]) s

/-- The type and the key that an entry is for. -/
def parseKey (entry : Text) : Option (Text × Text) :=
  if (latin1 "prop_").isPrefixOf entry then
    match split [] entry with
    | _ :: type :: key :: _ => some (type, key)
    | _ => none
  else none

/-- One turn of the loop of `deserializeProperties`. -/
def restoreEntry (c : PropertyContainer V) (e : Text × Text) : PropertyContainer V :=
  match parseKey e.1 with
  | none => c
  | some (type, key) =>
    match q.convert (q.nameToType type) e.2 with
    | none => c
    | some v =>
      match templates.tmpl key with
      | none => c
      | some tmpl => setProperty q c tmpl v

/-- `PropertyContainer::deserializeProperties`. -/
def deserializeProperties (c : PropertyContainer V) (data : QMap Text Text) :
    PropertyContainer V :=
  data.entries.foldl (restoreEntry q templates) c

/-! ## Splitting -/

theorem split_append {part u : Text} (h : 95 ∉ u) (s : Text) :
    split part (u ++ s) = split (part ++ u) s := by
  induction u generalizing part with
  | nil => rw [List.append_nil, List.nil_append]
  | cons c u ih =>
    obtain ⟨hNe, hRest⟩ := not_or.1 (mt List.mem_cons.2 h)
    rw [List.cons_append, split, if_neg (Ne.symm hNe), ih hRest, List.append_assoc]
    rfl

theorem split_part {u : Text} (h : 95 ∉ u) (hSome : u ≠ []) (s : Text) :
    split [] (u ++ 95 :: s) = u :: split [] s := by
  rw [split_append h, List.nil_append, split, if_pos rfl, if_neg hSome]

theorem split_last {u : Text} (h : 95 ∉ u) (hSome : u ≠ []) : split [] u = [u] := by
  have hAll : split [] (u ++ []) = split ([] ++ u) [] := split_append h []
  rw [List.append_nil, List.nil_append] at hAll
  rw [hAll, split, if_neg hSome]

theorem mem_split {part s : Text} (h : 95 ∉ part) : ∀ u ∈ split part s, 95 ∉ u ∧ u ≠ [] := by
  induction s generalizing part with
  | nil =>
    intro u hu
    unfold split at hu
    split at hu
    · cases hu
    · next hPart =>
      rw [List.mem_singleton.1 hu]
      exact ⟨h, hPart⟩
  | cons c s ih =>
    intro u hu
    unfold split at hu
    split at hu
    · split at hu
      · exact ih List.not_mem_nil u hu
      · next hPart =>
        rcases List.mem_cons.1 hu with rfl | hu
        · exact ⟨h, hPart⟩
        · exact ih List.not_mem_nil u hu
    · next hc =>
      refine ih ?_ u hu
      rw [List.mem_append, not_or]
      exact ⟨h, fun hLast => hc (List.mem_singleton.1 hLast).symm⟩

theorem mem_parseKey {entry type key : Text} (h : parseKey entry = some (type, key)) :
    95 ∉ type ∧ 95 ∉ key ∧ key ≠ [] := by
  unfold parseKey at h
  split at h
  · have hParts := mem_split (s := entry) (List.not_mem_nil (a := (95 : UInt16)))
    split at h
    · next first type' key' rest hSplit =>
      cases h
      rw [hSplit] at hParts
      have hType := hParts type (List.mem_cons_of_mem _ List.mem_cons_self)
      have hKey := hParts key (List.mem_cons_of_mem _ (List.mem_cons_of_mem _ List.mem_cons_self))
      exact ⟨hType.1, hKey⟩
    · cases h
  · cases h

variable {q}

/-- **Type and key without underscores** are found again. -/
theorem parseKey_entryKey {key : Text} {p : Property V} (hKey : 95 ∉ key) (hSome : key ≠ [])
    (hType : 95 ∉ q.typeName (q.type p.value)) (hNull : q.isNull p.value = false) :
    parseKey (entryKey q key p) = some (q.typeName (q.type p.value), key) := by
  have hEntry : entryKey q key p =
      latin1 "prop" ++ 95 :: (q.typeName (q.type p.value) ++ 95 :: key) := by
    unfold entryKey
    simp only [List.append_assoc]
    rfl
  have hBegin : (latin1 "prop_").isPrefixOf (entryKey q key p) = true := by
    rw [List.isPrefixOf_iff_prefix]
    unfold entryKey
    simp only [List.append_assoc]
    exact List.prefix_append _ _
  rw [parseKey, if_pos hBegin, hEntry, split_part (by decide) (by decide),
    split_part hType (q.typeName_ne_nil _ hNull), split_last hKey hSome]

/-! ## Containers -/

theorem find?_removeProperty {c : PropertyContainer V} {tmpl : PropertyTmpl} (h : tmpl.key ≠ [])
    (k : Text) :
    (removeProperty c tmpl).find? k = if k = tmpl.key then none else c.find? k := by
  unfold removeProperty
  by_cases hSome : (c.find? tmpl.key).isSome
  · rw [if_pos ⟨h, hSome⟩, QMap.find?_erase]
    by_cases hk : k = tmpl.key <;> simp [hk]
  · rw [if_neg fun hBoth => hSome hBoth.2]
    split
    · next hk =>
      rw [hk]
      exact Option.not_isSome_iff_eq_none.1 hSome
    · rfl

/-- **What `setProperty` leaves** in a container. -/
theorem find?_setProperty {c : PropertyContainer V} {tmpl : PropertyTmpl} (h : tmpl.key ≠ [])
    (v : V) (k : Text) :
    (setProperty q c tmpl v).find? k =
      if k = tmpl.key then
        if isEmptyValue q v then none
        else if q.same (value q c tmpl.key) v then c.find? k
        else some ⟨tmpl, v⟩
      else c.find? k := by
  unfold setProperty
  rw [if_neg h]
  by_cases hEmpty : isEmptyValue q v = true
  · simp only [if_pos hEmpty, find?_removeProperty h]
  · simp only [if_neg hEmpty]
    split
    · split <;> rfl
    · rw [QMap.find?_insert, QMap.find?_erase]
      by_cases hk : k = tmpl.key
      · rw [if_pos hk, if_pos hk]
      · rw [if_neg hk, if_neg hk, if_neg hk]

/-- **When it leaves everything.** -/
theorem setProperty_eq_self_iff {c : PropertyContainer V} {tmpl : PropertyTmpl}
    (h : tmpl.key ≠ []) (v : V) :
    setProperty q c tmpl v = c ↔
      if isEmptyValue q v then ∀ p, c.find? tmpl.key ≠ some p
      else ∃ p, c.find? tmpl.key = some p ∧ (p = ⟨tmpl, v⟩ ∨ q.same p.value v = true) := by
  have hFind := find?_setProperty (c := c) (q := q) h v
  constructor
  · -- what is found under the key is what was there
    intro hSame
    have hHere := hFind tmpl.key
    rw [hSame, if_pos rfl] at hHere
    split at hHere
    · next hEmpty =>
      rw [if_pos hEmpty, hHere]
      exact fun p hp => by cases hp
    · next hEmpty =>
      rw [if_neg hEmpty]
      split at hHere
      · next hEqual =>
        cases hOld : c.find? tmpl.key with
        | none =>
          have hNull : q.isNull v = false :=
            (Bool.or_eq_false_iff.1 (Bool.eq_false_iff.2 hEmpty)).1
          rw [value, hOld, Option.map_none, Option.getD_none, q.same_invalid v hNull] at hEqual
          cases hEqual
        | some p =>
          rw [value, hOld] at hEqual
          exact ⟨p, rfl, .inr hEqual⟩
      · exact ⟨_, hHere, .inl rfl⟩
  · intro hAt
    refine QMap.ext_find? fun k => ?_
    rw [hFind]
    split
    · next hk =>
      rw [hk]
      split
      · next hEmpty =>
        rw [if_pos hEmpty] at hAt
        exact (Option.eq_none_iff_forall_ne_some.2 hAt).symm
      · next hEmpty =>
        rw [if_neg hEmpty] at hAt
        obtain ⟨p, hp, hEqual⟩ := hAt
        split
        · rfl
        · next hDiffer =>
          rw [value, hp] at hDiffer
          rw [hp, hEqual.resolve_right hDiffer]
    · rfl

/-- A container as `setProperty` makes them. -/
structure Valid (q : QVariants V τ) (c : PropertyContainer V) : Prop where
  key : ∀ k p, c.find? k = some p → p.tmpl.key = k ∧ k ≠ []
  value : ∀ k p, c.find? k = some p → isEmptyValue q p.value = false

/-- A property that is written. -/
def Persistent (c : PropertyContainer V) (k : Text) (p : Property V) : Prop :=
  c.find? k = some p ∧ p.tmpl.persistent = true

/-- Its template is registered, and its value comes back from a text. -/
structure Serializable (q : QVariants V τ) (templates : Templates) (c : PropertyContainer V) : Prop
    extends Valid q c where
  registered : ∀ k p, Persistent c k p → templates.tmpl k = some p.tmpl
  converts : ∀ k p, Persistent c k p →
    q.convert (q.type p.value) (q.toString p.value) = some p.value

/-- The keys of the entries that are written. -/
def Written (q : QVariants V τ) (c : PropertyContainer V) (entry : Text) : Prop :=
  ∃ k p, Persistent c k p ∧ entryKey q k p = entry

/-- No underscore in the keys and in the names of the types. -/
def Plain (q : QVariants V τ) (c : PropertyContainer V) : Prop :=
  ∀ k p, Persistent c k p → 95 ∉ k ∧ 95 ∉ q.typeName (q.type p.value)

theorem isNull_of_not_empty {v : V} (h : isEmptyValue q v = false) : q.isNull v = false :=
  (Bool.or_eq_false_iff.1 h).1

variable {templates : Templates} {c : PropertyContainer V}

theorem Serializable.parseKey (h : Serializable q templates c) (hPlain : Plain q c) {k : Text}
    {p : Property V} (hp : Persistent c k p) :
    parseKey (entryKey q k p) = some (q.typeName (q.type p.value), k) :=
  parseKey_entryKey (hPlain k p hp).1 (h.key k p hp.1).2 (hPlain k p hp).2
    (isNull_of_not_empty (h.value k p hp.1))

theorem Serializable.entryKey_inj (h : Serializable q templates c) (hPlain : Plain q c)
    {k k' : Text} {p p' : Property V} (hp : Persistent c k p) (hp' : Persistent c k' p')
    (hSame : entryKey q k p = entryKey q k' p') : k = k' ∧ p = p' := by
  have hParse := h.parseKey hPlain hp
  rw [hSame, h.parseKey hPlain hp'] at hParse
  have hKey : k' = k := (Prod.mk.inj (Option.some.inj hParse)).2
  subst hKey
  exact ⟨rfl, Option.some.inj (hp.1.symm.trans hp'.1)⟩

/-- The entries that are written. -/
def writtenEntries (q : QVariants V τ) (c : PropertyContainer V) : List (Text × Text) :=
  (c.entries.filter fun e => e.2.tmpl.persistent).map fun e =>
    (entryKey q e.1 e.2, q.toString e.2.value)

theorem serializeProperties_eq (data : QMap Text Text) :
    serializeProperties q c data =
      (writtenEntries q c).foldl (fun m e => m.insert e.1 e.2) data := by
  rw [writtenEntries, List.foldl_map, List.foldl_filter]
  rfl

theorem mem_writtenEntries {e : Text × Text} :
    e ∈ writtenEntries q c ↔
      ∃ k p, Persistent c k p ∧ e = (entryKey q k p, q.toString p.value) := by
  unfold writtenEntries
  rw [List.mem_map]
  constructor
  · rintro ⟨⟨k, p⟩, he, rfl⟩
    obtain ⟨hMem, hPersistent⟩ := List.mem_filter.1 he
    exact ⟨k, p, ⟨QMap.mem_entries_iff.1 hMem, hPersistent⟩, rfl⟩
  · rintro ⟨k, p, ⟨hFind, hPersistent⟩, rfl⟩
    exact ⟨(k, p), List.mem_filter.2 ⟨QMap.mem_entries_iff.2 hFind, hPersistent⟩, rfl⟩

/-- **What is written** for a property. -/
theorem Serializable.find?_serialize (h : Serializable q templates c) (hPlain : Plain q c)
    (data : QMap Text Text) {k : Text} {p : Property V} (hp : Persistent c k p) :
    (serializeProperties q c data).find? (entryKey q k p) = some (q.toString p.value) := by
  have hMem : (entryKey q k p, q.toString p.value) ∈ writtenEntries q c :=
    mem_writtenEntries.2 ⟨k, p, hp, rfl⟩
  rw [serializeProperties_eq, QMap.find?_foldl_insert]
  generalize hFind : List.find? _ (writtenEntries q c).reverse = found
  cases found with
  | none =>
    have hNone := List.find?_eq_none.1 hFind _ (List.mem_reverse.2 hMem)
    simp at hNone
  | some e =>
    -- what is written under the key is its own
    have hKey : e.1 = entryKey q k p := by simpa using List.find?_some hFind
    obtain ⟨k', p', hp', rfl⟩ :=
      mem_writtenEntries.1 (List.mem_reverse.1 (List.mem_of_find?_eq_some hFind))
    rw [(h.entryKey_inj hPlain hp' hp hKey).2]
    rfl

/-! ## Restoring -/

/-- A property whose entry comes before this one. -/
def Earlier (q : QVariants V τ) (c : PropertyContainer V) (entry key : Text) (p : Property V) :
    Prop := Persistent c key p ∧ entryKey q key p < entry

/-- An entry that has nothing to say: it is not taken for a property, or it is for one whose
own entry came before and is of the same value, or empties one that is not there yet. -/
def Ignored (q : QVariants V τ) (templates : Templates) (c : PropertyContainer V)
    (e : Text × Text) : Prop :=
  ∀ type key v tmpl, PropertyContainer.parseKey e.1 = some (type, key) →
    q.convert (q.nameToType type) e.2 = some v → templates.tmpl key = some tmpl →
    if isEmptyValue q v then ∀ p, ¬ Earlier q c e.1 key p
    else ∃ p, Earlier q c e.1 key p ∧ (p.value = v ∨ q.same p.value v = true)

/-- What is to be restored from the written entries and others: exactly the persistent
properties, the others changing nothing where they are read. -/
structure Restores (q : QVariants V τ) (templates : Templates) (c : PropertyContainer V)
    (data : QMap Text Text) : Prop where
  persistent : ∀ k, (deserializeProperties q templates QMap.empty
    (serializeProperties q c data)).find? k = (c.find? k).filter fun p => p.tmpl.persistent
  others : ∀ before e after, (serializeProperties q c data).entries = before ++ e :: after →
    ¬ Written q c e.1 →
    restoreEntry q templates (before.foldl (restoreEntry q templates) QMap.empty) e =
      before.foldl (restoreEntry q templates) QMap.empty

/-- A container while it is restored: the properties whose entries have been read. -/
def Restored (q : QVariants V τ) (c : PropertyContainer V) (before : List (Text × Text))
    (s : PropertyContainer V) : Prop :=
  ∀ k p, s.find? k = some p ↔ Persistent c k p ∧ entryKey q k p ∈ before.map Prod.fst

variable {before : List (Text × Text)} {s : PropertyContainer V} {e : Text × Text}

theorem restoreEntry_of_parse {type key : Text} {v : V} {tmpl : PropertyTmpl}
    (hParse : PropertyContainer.parseKey e.1 = some (type, key))
    (hConvert : q.convert (q.nameToType type) e.2 = some v)
    (hTmpl : templates.tmpl key = some tmpl) :
    restoreEntry q templates s e = setProperty q s tmpl v := by
  simp only [restoreEntry, hParse, hConvert, hTmpl]

theorem Restored.own (hc : Serializable q templates c) (hPlain : Plain q c)
    (h : Restored q c before s) {k : Text} {p : Property V} (hp : Persistent c k p)
    (hKey : e.1 = entryKey q k p) (hText : e.2 = q.toString p.value)
    (hNew : e.1 ∉ before.map Prod.fst) :
    Restored q c (before ++ [e]) (restoreEntry q templates s e) := by
  have hValue := hc.value k p hp.1
  have hNull := isNull_of_not_empty hValue
  have hConvert : q.convert (q.nameToType (q.typeName (q.type p.value))) e.2 = some p.value := by
    rw [q.nameToType_typeName _ hNull, hText, hc.converts k p hp]
  obtain ⟨hTmplKey, hSome⟩ := hc.key k p hp.1
  have hStep := restoreEntry_of_parse (s := s) (hKey ▸ hc.parseKey hPlain hp) hConvert
    (hc.registered k p hp)
  have hAbsent : s.find? k = none := by
    cases hFind : s.find? k with
    | none => rfl
    | some p' =>
      obtain ⟨hp', hMem⟩ := (h k p').1 hFind
      have hSame : p' = p := Option.some.inj (hp'.1.symm.trans hp.1)
      rw [hSame, ← hKey] at hMem
      exact absurd hMem hNew
  have hDiffer : q.same (value q s p.tmpl.key) p.value = false := by
    rw [hTmplKey, value, hAbsent]
    exact q.same_invalid _ hNull
  intro k' p'
  rw [hStep, find?_setProperty (hTmplKey.symm ▸ hSome), hTmplKey, hValue]
  rw [hTmplKey] at hDiffer
  simp only [Bool.false_eq_true, if_false, hDiffer, List.map_append, List.map_cons, List.map_nil,
    List.mem_append, List.mem_singleton]
  by_cases hk : k' = k
  · subst hk
    rw [if_pos rfl]
    constructor
    · intro hEq
      obtain rfl : p = p' := Option.some.inj hEq
      exact ⟨hp, .inr hKey.symm⟩
    · rintro ⟨hp', -⟩
      exact congrArg some (Option.some.inj (hp.1.symm.trans hp'.1))
  · rw [if_neg hk, h k' p']
    refine and_congr_right fun hp' => (or_iff_left fun hSame => ?_).symm
    exact hk (hc.entryKey_inj hPlain hp' hp (hSame.trans hKey)).1

theorem Restored.other (h : Restored q c before s) (hOther : ¬ Written q c e.1) :
    Restored q c (before ++ [e]) s := by
  intro k p
  rw [h k p, List.map_append, List.mem_append]
  refine and_congr_right fun hp => (or_iff_left fun hLast => ?_).symm
  exact hOther ⟨k, p, hp, List.mem_singleton.1 hLast⟩

theorem Restored.find?_iff (h : Restored q c before s)
    (hBefore : ∀ k p, Persistent c k p →
      (entryKey q k p ∈ before.map Prod.fst ↔ entryKey q k p < e.1)) (k : Text) (p : Property V) :
    s.find? k = some p ↔ Earlier q c e.1 k p := by
  rw [h k p, Earlier]
  exact and_congr_right fun hp => hBefore k p hp

/-- **An entry changes nothing** exactly if it is ignored. -/
theorem Restored.unchanged_iff (hc : Serializable q templates c) (h : Restored q c before s)
    (hBefore : ∀ k p, Persistent c k p →
      (entryKey q k p ∈ before.map Prod.fst ↔ entryKey q k p < e.1)) :
    restoreEntry q templates s e = s ↔ Ignored q templates c e := by
  have hIgnored : (∀ type key v tmpl, PropertyContainer.parseKey e.1 = some (type, key) →
      q.convert (q.nameToType type) e.2 = some v → templates.tmpl key = some tmpl →
      setProperty q s tmpl v = s) ↔ Ignored q templates c e := by
    refine forall₄_congr fun type key v tmpl => ?_
    refine imp_congr_right fun hParse => imp_congr_right fun _ => imp_congr_right fun hTmpl => ?_
    have hKey : tmpl.key = key := templates.key_tmpl hTmpl
    have hThere := h.find?_iff hBefore key
    rw [setProperty_eq_self_iff (hKey.symm ▸ (mem_parseKey hParse).2.2), hKey]
    by_cases hEmpty : isEmptyValue q v = true
    · rw [if_pos hEmpty, if_pos hEmpty]
      exact forall_congr' fun p => not_congr (hThere p)
    · rw [if_neg hEmpty, if_neg hEmpty]
      refine exists_congr fun p => (and_congr_left' (hThere p)).trans ?_
      refine and_congr_right fun hp => or_congr_left ?_
      -- its template is the registered one
      have hSame : p.tmpl = tmpl :=
        Option.some.inj ((hc.registered key p hp.1).symm.trans hTmpl)
      constructor
      · rintro rfl
        rfl
      · rintro rfl
        rw [← hSame]
  rw [← hIgnored]
  constructor
  · intro hSame type key v tmpl hParse hConvert hTmpl
    rwa [restoreEntry_of_parse hParse hConvert hTmpl] at hSame
  · intro hAll
    unfold restoreEntry
    split
    · rfl
    · next type key hParse =>
      split
      · rfl
      · next v hConvert =>
        split
        · rfl
        · next tmpl hTmpl => exact hAll type key v tmpl hParse hConvert hTmpl

/-! ## The whole map -/

theorem mem_before_iff {m : QMap Text Text} {after : List (Text × Text)}
    (h : m.entries = before ++ e :: after) {key text : Text} (hKey : m.find? key = some text) :
    key ∈ before.map Prod.fst ↔ key < e.1 := by
  have hSorted := m.sorted
  rw [h] at hSorted
  obtain ⟨-, hRest, hCross⟩ := List.pairwise_append.1 hSorted
  have hLater := (List.pairwise_cons.1 hRest).1
  have hMem : (key, text) ∈ before ++ e :: after := h ▸ QMap.mem_entries_iff.2 hKey
  constructor
  · intro hBefore
    obtain ⟨b, hb, rfl⟩ := List.mem_map.1 hBefore
    exact hCross b hb e List.mem_cons_self
  · intro hLess
    rcases List.mem_append.1 hMem with hb | hb
    · exact List.mem_map_of_mem hb
    · rcases List.mem_cons.1 hb with hSame | hb
      · rw [← hSame] at hLess
        exact absurd hLess (lt_irrefl key)
      · exact absurd (hLess.trans (hLater _ hb)) (lt_irrefl key)

/-- **A container while it is restored.** As long as the other entries change nothing it has
the properties whose entries have been read. -/
theorem Serializable.restored (hc : Serializable q templates c) (hPlain : Plain q c)
    {data : QMap Text Text}
    (hOthers : ∀ before e after,
      (serializeProperties q c data).entries = before ++ e :: after → ¬ Written q c e.1 →
      Restored q c before (before.foldl (restoreEntry q templates) QMap.empty) →
      restoreEntry q templates (before.foldl (restoreEntry q templates) QMap.empty) e =
        before.foldl (restoreEntry q templates) QMap.empty)
    {before after : List (Text × Text)}
    (h : (serializeProperties q c data).entries = before ++ after) :
    Restored q c before (before.foldl (restoreEntry q templates) QMap.empty) := by
  induction before using List.reverseRecOn generalizing after with
  | nil =>
    intro k p
    exact iff_of_false (fun hp => by cases hp) fun hp => List.not_mem_nil hp.2
  | append_singleton before e ih =>
    rw [List.append_assoc, List.singleton_append] at h
    have hBefore := ih h
    rw [List.foldl_append, List.foldl_cons, List.foldl_nil]
    by_cases hOwn : Written q c e.1
    · obtain ⟨k, p, hp, hKey⟩ := hOwn
      have hFind := hc.find?_serialize hPlain data hp
      have hHere : (serializeProperties q c data).find? e.1 = some e.2 := by
        refine QMap.mem_entries_iff.1 ?_
        rw [h]
        exact List.mem_append_right _ List.mem_cons_self
      rw [hKey, hHere] at hFind
      refine hBefore.own hc hPlain hp hKey.symm (Option.some.inj hFind) fun hMem => ?_
      exact lt_irrefl _ ((mem_before_iff h hHere).1 hMem)
    · rw [hOthers before e after h hOwn hBefore]
      exact hBefore.other hOwn

theorem plain_restoreEntry
    (h : ∀ k p, s.find? k = some p → 95 ∉ k ∧ 95 ∉ q.typeName (q.type p.value)) :
    ∀ k p, (restoreEntry q templates s e).find? k = some p →
      95 ∉ k ∧ 95 ∉ q.typeName (q.type p.value) := by
  intro k p hp
  unfold restoreEntry at hp
  split at hp
  · exact h k p hp
  · next type key hParse =>
    split at hp
    · exact h k p hp
    · next v hConvert =>
      split at hp
      · exact h k p hp
      · next tmpl hTmpl =>
        obtain ⟨hType, hKey, hSome⟩ := mem_parseKey hParse
        have hTmplKey := templates.key_tmpl hTmpl
        rw [find?_setProperty (hTmplKey.symm ▸ hSome)] at hp
        split at hp
        · next hk =>
          split at hp
          · cases hp
          · split at hp
            · exact h k p hp
            · rw [hk, hTmplKey, ← Option.some.inj hp, q.type_convert hConvert]
              exact ⟨hKey, q.plain_typeName _ hType⟩
        · exact h k p hp

theorem plain_deserialize (data : QMap Text Text) :
    ∀ k p, (deserializeProperties q templates QMap.empty data).find? k = some p →
      95 ∉ k ∧ 95 ∉ q.typeName (q.type p.value) := by
  have hAll : ∀ (es : List (Text × Text)) (s : PropertyContainer V),
      (∀ k p, s.find? k = some p → 95 ∉ k ∧ 95 ∉ q.typeName (q.type p.value)) →
      ∀ k p, (es.foldl (restoreEntry q templates) s).find? k = some p →
        95 ∉ k ∧ 95 ∉ q.typeName (q.type p.value) := by
    intro es
    induction es with
    | nil => exact fun s hs => hs
    | cons e es ih => exact fun s hs => ih _ (plain_restoreEntry hs)
  exact hAll data.entries _ fun k p hp => by cases hp

/-- **There and back.** A container whose persistent properties have registered templates
and values that come back from texts is restored from its entries, among any others,
exactly if there is no underscore in the keys and the names of the types, and every other
entry has nothing to say. -/
theorem restores_iff (hc : Serializable q templates c) (data : QMap Text Text) :
    Restores q templates c data ↔
      Plain q c ∧ ∀ e ∈ (serializeProperties q c data).entries, ¬ Written q c e.1 →
        Ignored q templates c e := by
  have hBefore : Plain q c → ∀ {before e after},
      (serializeProperties q c data).entries = before ++ e :: after → ∀ k p, Persistent c k p →
        (entryKey q k p ∈ before.map Prod.fst ↔ entryKey q k p < e.1) :=
    fun hPlain _ _ _ h k p hp => mem_before_iff h (hc.find?_serialize hPlain data hp)
  constructor
  · intro h
    have hPlain : Plain q c := by
      intro k p hp
      have hRead := @plain_deserialize V τ q templates (serializeProperties q c data) k p
      rw [h.persistent k, hp.1, Option.filter_some, if_pos hp.2] at hRead
      exact hRead rfl
    refine ⟨hPlain, fun e he hOther => ?_⟩
    obtain ⟨before, after, hSplit⟩ := List.append_of_mem he
    have hRestored := hc.restored hPlain (fun b e a hb ho _ => h.others b e a hb ho) hSplit
    exact (hRestored.unchanged_iff hc (hBefore hPlain hSplit)).1
      (h.others before e after hSplit hOther)
  · rintro ⟨hPlain, hIgnored⟩
    have hUnchanged : ∀ before e after,
        (serializeProperties q c data).entries = before ++ e :: after → ¬ Written q c e.1 →
        Restored q c before (before.foldl (restoreEntry q templates) QMap.empty) →
        restoreEntry q templates (before.foldl (restoreEntry q templates) QMap.empty) e =
          before.foldl (restoreEntry q templates) QMap.empty := by
      intro before e after hSplit hOther hRestored
      refine (hRestored.unchanged_iff hc (hBefore hPlain hSplit)).2 (hIgnored e ?_ hOther)
      rw [hSplit]
      exact List.mem_append_right _ List.mem_cons_self
    refine ⟨fun k => ?_, fun before e after hSplit hOther => ?_⟩
    · have hAll := hc.restored hPlain hUnchanged (List.append_nil _).symm
      refine Option.ext fun p => ?_
      rw [Option.filter_eq_some_iff]
      refine (hAll k p).trans (and_iff_left_of_imp fun hp => ?_)
      exact List.mem_map_of_mem (QMap.mem_entries_iff.2 (hc.find?_serialize hPlain data hp))
    · exact hUnchanged before e after hSplit hOther (hc.restored hPlain hUnchanged hSplit)

/-- Texts, and the variant that has no value. -/
def textVariants : QVariants (Option Text) Bool where
  type := Option.isSome
  typeName := fun isText => if isText then latin1 "QString" else []
  nameToType := fun name => name = latin1 "QString"
  toString := fun v => v.getD []
  isNull := Option.isNone
  canConvertToString := Option.isSome
  convert := fun isText text => if isText then some (some text) else none
  invalid := none
  same := fun v w => v = w
  nameToType_typeName := by
    intro v hv
    cases v with
    | none => cases hv
    | some text => rfl
  typeName_ne_nil := by
    intro v hv
    cases v with
    | none => cases hv
    | some text => exact List.cons_ne_nil _ _
  type_convert := by
    intro isText text v hv
    cases isText with
    | false => cases hv
    | true =>
      cases hv
      rfl
  same_invalid := by
    intro v hv
    cases v with
    | none => cases hv
    | some text => rfl
  plain_typeName := by
    intro name _
    by_cases hName : name = latin1 "QString"
    · rw [decide_eq_true hName]
      decide
    · rw [decide_eq_false hName]
      decide

/-- Templates for all keys, of persistent properties. -/
def persistentTemplates : Templates where
  tmpl := fun key => some ⟨key, true⟩
  key_tmpl := fun h => (Option.some.inj h) ▸ rfl

/-- A container with one property. -/
def singleProperty (key text : Text) : PropertyContainer (Option Text) :=
  QMap.empty.insert key ⟨⟨key, true⟩, some text⟩

theorem serializable_singleProperty {key text : Text} (hKey : key ≠ []) (hText : text ≠ []) :
    Serializable textVariants persistentTemplates (singleProperty key text) := by
  have hOnly : ∀ k p, (singleProperty key text).find? k = some p →
      k = key ∧ p = ⟨⟨key, true⟩, some text⟩ := by
    intro k p hp
    rw [singleProperty, QMap.find?_insert] at hp
    split at hp
    · next hk => exact ⟨hk, (Option.some.inj hp).symm⟩
    · cases hp
  refine ⟨⟨fun k p hp => ?_, fun k p hp => ?_⟩, fun k p hp => ?_, fun k p hp => ?_⟩
  · obtain ⟨rfl, rfl⟩ := hOnly k p hp
    exact ⟨rfl, hKey⟩
  · obtain ⟨rfl, rfl⟩ := hOnly k p hp
    exact List.isEmpty_eq_false_iff.2 hText
  · obtain ⟨rfl, rfl⟩ := hOnly k p hp.1
    rfl
  · obtain ⟨rfl, rfl⟩ := hOnly k p hp.1
    rfl

theorem restores_iff_nick :
    Serializable textVariants persistentTemplates (singleProperty (latin1 "nick") (latin1 "x")) ∧
    (Restores textVariants persistentTemplates (singleProperty (latin1 "nick") (latin1 "x"))
        QMap.empty ↔
      Plain textVariants (singleProperty (latin1 "nick") (latin1 "x")) ∧
        ∀ e ∈ (serializeProperties textVariants (singleProperty (latin1 "nick") (latin1 "x"))
            QMap.empty).entries,
          ¬ Written textVariants (singleProperty (latin1 "nick") (latin1 "x")) e.1 →
            Ignored textVariants persistentTemplates
              (singleProperty (latin1 "nick") (latin1 "x")) e) :=
  have hc := serializable_singleProperty (by decide) (by decide)
  ⟨hc, restores_iff hc QMap.empty⟩

/-- The property `a_b` comes back as a property `a`. -/
theorem restores_underscore :
    let c := singleProperty (latin1 "a_b") (latin1 "x")
    Serializable textVariants persistentTemplates c ∧
      ¬ Restores textVariants persistentTemplates c QMap.empty := by
  intro c
  refine ⟨serializable_singleProperty (by decide) (by decide), fun h => ?_⟩
  have hBack := h.persistent (latin1 "a_b")
  have hKept : (c.find? (latin1 "a_b")).filter (fun p => p.tmpl.persistent) =
      some ⟨⟨latin1 "a_b", true⟩, some (latin1 "x")⟩ := rfl
  have hLost : (deserializeProperties textVariants persistentTemplates QMap.empty
      (serializeProperties textVariants c QMap.empty)).find? (latin1 "a_b") = none := rfl
  rw [hKept, hLost] at hBack
  cases hBack

end PropertyContainer

end Kopete
