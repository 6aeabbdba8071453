import OctetMachine.Proofs.Lexing
import OctetMachine.Settings.Reader

/-!
# Settings read from a tree

The reader of settings takes a document member by member: what it makes of the text is a fold over
what the members say, and it makes nothing of a text as soon as one step makes nothing. Which
problem is reported is not followed.
-/

namespace OctetMachine

namespace JsonText

theorem endsNumber_cons {c : Char} (h : c ∈ [' ', '\t', '\n', '\r', ',', '\x7d'])
    (rest : List Char) : EndsNumber (c :: rest) := by
  revert c
  simp [EndsNumber]

theorem endsNumber_gap (g : Gap) {rest : List Char} (h : EndsNumber rest) :
    EndsNumber (g.text ++ rest) := by
  cases g with
  | nil => exact h
  | cons s g => exact endsNumber_cons (by cases s <;> decide) _

/-- The text of an object behind its opening bracket. -/
def objectText (inner : Gap) (members : List (Member Value)) : List Char :=
  inner.text ++ [','].intercalate (memberTexts members) ++ ['\x7d']

/-- The text of the members behind the first, a comma before each. -/
def laterTexts (members : List (Member Value)) : List Char :=
  members.flatMap fun m ↦ ',' :: memberText m

theorem intercalate_memberTexts (m : Member Value) (members : List (Member Value)) :
    [','].intercalate (memberTexts (m :: members)) = memberText m ++ laterTexts members := by
  induction members generalizing m with
  | nil => simp [memberTexts, laterTexts]
  | cons m' members ih =>
    rw [memberTexts, memberTexts, List.intercalate_cons_cons, ← memberTexts, ih m']
    simp [laterTexts]

/-- A reader that takes words and numbers only takes no other value. -/
theorem toOption_read_of_other {α : Type} {read : List Token → Except Problem α}
    (hread : ∀ t more, (∀ w, t ≠ .word w) → (∀ x, t ≠ .number x) →
      (read (t :: more)).toOption = none)
    {v : Value} (hword : ∀ w, v ≠ .word w) (hnumber : ∀ x, v ≠ .number x) (rest : List Char) :
    (read (tokens (v.text ++ rest))).toOption = none := by
  suffices h : ∃ t more, tokens (v.text ++ rest) = t :: more ∧ (∀ w, t ≠ .word w) ∧
      ∀ x, t ≠ .number x by
    obtain ⟨t, more, ht, hw, hn⟩ := h
    rw [ht]
    exact hread t more hw hn
  cases v with
  | word w => exact absurd rfl (hword w)
  | number x => exact absurd rfl (hnumber x)
  | string q =>
    obtain ⟨text, -, hstring⟩ | ⟨-, p, hstring⟩ := tokens_quotation q rest
    · exact ⟨_, _, hstring, by simp, by simp⟩
    · exact ⟨_, _, hstring, by simp, by simp⟩
  | array inner elements => exact ⟨_, _, tokens_of_mark (c := '[') rfl _, by simp, by simp⟩
  | object inner members => exact ⟨_, _, tokens_of_mark (c := '\x7b') rfl _, by simp, by simp⟩

end JsonText

namespace Settings

open JsonText

/-! ## Values -/

/-- The flag that a value is. -/
def flag? : Value → Option Bool
  | .word .true => some true
  | .word .false => some false
  | _ => none

/-- The natural number up to a greatest one that a value is, or none. -/
def natural? (greatest : Nat) : Value → Option (Option Nat)
  | .word .null => some none
  | .number x =>
    if x.IsWhole ∧ x.whole.value ≤ greatest then some (some x.whole.value) else none
  | _ => none

theorem toOption_readFlag (v : Value) {rest : List Char} (h : EndsNumber rest) :
    (readFlag (tokens (v.text ++ rest))).toOption = (flag? v).map (·, tokens rest) := by
  have hother : ∀ t more, (∀ w, t ≠ .word w) → (∀ x, t ≠ .number x) →
      (readFlag (t :: more)).toOption = none := by
    intro t more hw _
    cases t with
    | word w => exact absurd rfl (hw w)
    | _ => rfl
  cases v with
  | word w =>
    refine (congrArg (fun ts ↦ (readFlag ts).toOption) (tokens_word w rest)).trans ?_
    cases w <;> rfl
  | number x =>
    refine (congrArg (fun ts ↦ (readFlag ts).toOption) (tokens_decimal x h)).trans ?_
    split <;> rfl
  | _ => exact toOption_read_of_other hother (by simp) (by simp) rest

theorem readNatural_of_natural? {x : Number} {n : Nat} (h : x.natural? = some n) (bound : Nat)
    (ts : List Token) :
    readNatural bound (.number x :: ts) =
      if n < bound then .ok (some n, ts) else .error .unsuitable := by
  simp only [readNatural, h]

theorem readNatural_of_natural?_eq_none {x : Number} (h : x.natural? = none) (bound : Nat)
    (ts : List Token) : readNatural bound (.number x :: ts) = .error .unsuitable := by
  simp only [readNatural, h]

theorem toOption_readNatural_decimal {greatest : Nat} (hgreatest : greatest < UInt64.size)
    (x : Decimal) (ts : List Token) :
    (readNatural (greatest + 1) (if x.number.isTooLarge then [.broken false .malformed]
      else .number x.number :: ts)).toOption =
      (natural? greatest (.number x)).map (·, ts) := by
  by_cases hx : x.IsWhole ∧ x.whole.value ≤ greatest
  · -- What fits in a word is in the floating-point range, so the size does not matter here.
    have hnatural := (x.natural?_number_eq_some_iff x.whole.value).mpr ⟨hx.1, rfl⟩
    have hsize := Number.isTooLarge_of_natural? hnatural (Nat.lt_of_le_of_lt hx.2 hgreatest)
    rw [natural?, if_pos hx, hsize, if_neg Bool.false_ne_true, readNatural_of_natural? hnatural,
      if_pos (Nat.lt_succ_of_le hx.2)]
    rfl
  · rw [natural?, if_neg hx]
    split
    · rfl
    · cases hnatural : x.number.natural? with
      | none =>
        rw [readNatural_of_natural?_eq_none hnatural]
        rfl
      | some n =>
        obtain ⟨hwhole, rfl⟩ := (x.natural?_number_eq_some_iff n).mp hnatural
        have hbound : ¬ x.whole.value < greatest + 1 := fun hlt ↦ hx ⟨hwhole, Nat.le_of_lt_succ hlt⟩
        rw [readNatural_of_natural? hnatural, if_neg hbound]
        rfl

theorem toOption_readNatural {greatest : Nat} (hgreatest : greatest < UInt64.size) (v : Value)
    {rest : List Char} (h : EndsNumber rest) :
    (readNatural (greatest + 1) (tokens (v.text ++ rest))).toOption =
      (natural? greatest v).map (·, tokens rest) := by
  have hother : ∀ t more, (∀ w, t ≠ .word w) → (∀ x, t ≠ .number x) →
      (readNatural (greatest + 1) (t :: more)).toOption = none := by
    intro t more hw hn
    cases t with
    | word w => exact absurd rfl (hw w)
    | number x => exact absurd rfl (hn x)
    | _ => rfl
  cases v with
  | word w =>
    refine (congrArg (fun ts ↦ (readNatural (greatest + 1) ts).toOption)
      (tokens_word w rest)).trans ?_
    cases w <;> rfl
  | number x =>
    refine (congrArg (fun ts ↦ (readNatural (greatest + 1) ts).toOption)
      (tokens_decimal x h)).trans ?_
    exact toOption_readNatural_decimal hgreatest x (tokens rest)
  | _ => exact toOption_read_of_other hother (by simp) (by simp) rest

/-! ## Members -/

/-- Takes the value of a field. -/
def Draft.put? (d : Draft) (f : Field) (v : Value) : Option Draft :=
  match f with
  | .tracing =>
    (flag? v).map fun tracing ↦
      { settings := { d.settings with tracing }, seen := f :: d.seen }
  | .stackPointer =>
    (natural? (UInt8.size - 1) v).map fun n ↦
      { settings := { d.settings with stackPointer := n.map UInt8.ofNat }, seen := f :: d.seen }
  | .budget =>
    (natural? (UInt64.size - 1) v).map fun n ↦
      { settings := { d.settings with budget := n.map UInt64.ofNat }, seen := f :: d.seen }

/-- Takes what a member says; its key has to be known and new. -/
def Draft.add? (d : Draft) (entry : Entry) : Option Draft :=
  (entry.1.bind Field.ofKey?).bind fun f ↦
    if d.seen.contains f then none else d.put? f entry.2

theorem toOption_readValue (d : Draft) (f : Field) (v : Value) {rest : List Char}
    (h : EndsNumber rest) :
    (readValue d f (tokens (v.text ++ rest))).toOption = (d.put? f v).map (·, tokens rest) := by
  cases f with
  | tracing =>
    rw [readValue, toOption_bind, toOption_readFlag v h, Draft.put?]
    cases flag? v <;> rfl
  | stackPointer =>
    have hread := toOption_readNatural (show UInt8.size - 1 < UInt64.size by decide) v h
    rw [readValue, toOption_bind, show UInt8.size = (UInt8.size - 1) + 1 from rfl, hread,
      Draft.put?]
    cases natural? (UInt8.size - 1) v <;> rfl
  | budget =>
    have hread := toOption_readNatural (show UInt64.size - 1 < UInt64.size by decide) v h
    rw [readValue, toOption_bind, show UInt64.size = (UInt64.size - 1) + 1 from rfl, hread,
      Draft.put?]
    cases natural? (UInt64.size - 1) v <;> rfl

theorem toOption_expect (c : Char) (ts : List Token) :
    (expect c (.mark c :: ts)).toOption = some ts := by
  rw [expect, if_pos rfl]
  rfl

/-- The key of a member, up to the colon behind it. -/
theorem toOption_readKey (q : Quotation) (rest : List Char) :
    (readKey (tokens (q.text ++ rest))).toOption = q.decode?.map (·, tokens rest) := by
  obtain ⟨text, hdecode, hstring⟩ | ⟨hdecode, p, hstring⟩ := tokens_quotation q rest
  · rw [hdecode, hstring]
    rfl
  · rw [hdecode, hstring]
    rfl

/-- What stands between the key of a member and its value. -/
theorem toOption_expect_colon (before after : Gap) (rest : List Char) :
    (expect ':' (tokens (before.text ++ ':' :: (after.text ++ rest)))).toOption =
      some (tokens rest) := by
  rw [tokens_gap, tokens_of_mark rfl, toOption_expect, tokens_gap]

theorem memberText_append (m : Member Value) (rest : List Char) :
    memberText m ++ rest = m.before.text ++ (m.key.text ++ (m.afterKey.text ++
      ':' :: (m.beforeValue.text ++ (m.value.text ++ (m.after.text ++ rest))))) := by
  obtain ⟨before, key, afterKey, beforeValue, value, after⟩ := m
  simp [memberText]

theorem toOption_readMember (d : Draft) (m : Member Value) {rest : List Char}
    (h : EndsNumber rest) :
    (readMember d (tokens (memberText m ++ rest))).toOption =
      (d.add? m.entry).map (·, tokens rest) := by
  rw [memberText_append, tokens_gap, readMember, toOption_bind, toOption_readKey, Draft.add?,
    Member.entry]
  cases m.key.decode? with
  | none => rfl
  | some key =>
    dsimp only [Option.map_some, Option.bind_some]
    cases Field.ofKey? key with
    | none => rfl
    | some f =>
      dsimp only [Option.bind_some]
      split
      · rfl
      · rw [toOption_bind, toOption_expect_colon, Option.bind_some,
          toOption_readValue d f m.value (endsNumber_gap m.after h), tokens_gap]

/-! ## The inner object -/

theorem readMembers_comma (d : Draft) (ts : List Token) :
    readMembers d (.mark ',' :: ts) =
      readMember d ts >>= fun (d, after) ↦ readMembers d after := by
  rw [readMembers]
  split
  · simp_all [bind, Except.bind]
  · simp_all [bind, Except.bind]

theorem readMembers_close (d : Draft) (ts : List Token) :
    readMembers d (.mark '\x7d' :: ts) = .ok (d, ts) := by
  rw [readMembers]
  · rfl
  · simp

theorem laterTexts_cons (m : Member Value) (members : List (Member Value)) (rest : List Char) :
    laterTexts (m :: members) ++ '\x7d' :: rest =
      ',' :: (memberText m ++ (laterTexts members ++ '\x7d' :: rest)) := by
  simp [laterTexts]

theorem endsNumber_laterTexts (members : List (Member Value)) (rest : List Char) :
    EndsNumber (laterTexts members ++ '\x7d' :: rest) := by
  cases members with
  | nil => exact endsNumber_cons (by decide) _
  | cons m members => exact endsNumber_cons (c := ',') (by decide) _

theorem toOption_readMembers (members : List (Member Value)) (d : Draft) (rest : List Char) :
    (readMembers d (tokens (laterTexts members ++ '\x7d' :: rest))).toOption =
      ((members.map Member.entry).foldlM Draft.add? d).map (·, tokens rest) := by
  induction members generalizing d with
  | nil =>
    have hclose : tokens ('\x7d' :: rest) = .mark '\x7d' :: tokens rest := tokens_of_mark rfl rest
    exact (congrArg (fun ts ↦ (readMembers d ts).toOption) hclose).trans
      (congrArg Except.toOption (readMembers_close d (tokens rest)))
  | cons m members ih =>
    rw [laterTexts_cons, tokens_of_mark rfl, readMembers_comma, toOption_bind,
      toOption_readMember d m (endsNumber_laterTexts members rest), List.map_cons,
      List.foldlM_cons]
    cases d.add? m.entry with
    | none => rfl
    | some e => exact ih e

/-- A member starts with its key, so with no mark. -/
theorem exists_tokens_memberText (m : Member Value) (rest : List Char) :
    ∃ t more, tokens (memberText m ++ rest) = t :: more ∧ ∀ c, t ≠ .mark c := by
  rw [memberText_append, tokens_gap]
  obtain ⟨text, -, hstring⟩ | ⟨-, p, hstring⟩ := tokens_quotation m.key (m.afterKey.text ++
    ':' :: (m.beforeValue.text ++ (m.value.text ++ (m.after.text ++ rest))))
  · exact ⟨_, _, hstring, by simp⟩
  · exact ⟨_, _, hstring, by simp⟩

theorem readObject_of_ne_mark {t : Token} (h : ∀ c, t ≠ .mark c) (more : List Token) :
    readObject (t :: more) =
      readMember {} (t :: more) >>= fun (d, rest) ↦ readMembers d rest := by
  cases t with
  | mark c => exact absurd rfl (h c)
  | _ => rfl

theorem objectText_cons (inner : Gap) (m : Member Value) (members : List (Member Value))
    (rest : List Char) :
    objectText inner (m :: members) ++ rest =
      inner.text ++ (memberText m ++ (laterTexts members ++ '\x7d' :: rest)) := by
  simp [objectText, intercalate_memberTexts]

theorem tokens_objectText_nil (inner : Gap) (rest : List Char) :
    tokens (objectText inner [] ++ rest) = .mark '\x7d' :: tokens rest := by
  have htext : objectText inner [] ++ rest = inner.text ++ '\x7d' :: rest := by
    simp [objectText, memberTexts]
  rw [htext, tokens_gap, tokens_of_mark rfl]

theorem toOption_readObject (inner : Gap) (members : List (Member Value)) (rest : List Char) :
    (readObject (tokens (objectText inner members ++ rest))).toOption =
      ((members.map Member.entry).foldlM Draft.add? {}).map (·, tokens rest) := by
  cases members with
  | nil =>
    rw [tokens_objectText_nil]
    rfl
  | cons m members =>
    obtain ⟨t, more, hstart, hmark⟩ :=
      exists_tokens_memberText m (laterTexts members ++ '\x7d' :: rest)
    have hread := toOption_readMember {} m (endsNumber_laterTexts members rest)
    rw [hstart] at hread
    rw [objectText_cons, tokens_gap, hstart, readObject_of_ne_mark hmark, toOption_bind, hread,
      List.map_cons, List.foldlM_cons]
    cases Draft.add? {} m.entry with
    | none => rfl
    | some d => exact toOption_readMembers members d rest

theorem tokens_object (inner : Gap) (members : List (Member Value)) (rest : List Char) :
    tokens ((Value.object inner members).text ++ rest) =
      .mark '\x7b' :: tokens (objectText inner members ++ rest) :=
  tokens_of_mark rfl _

theorem toOption_readGeneral (inner : Gap) (members : List (Member Value)) (rest : List Char) :
    (readGeneral (tokens ((Value.object inner members).text ++ rest))).toOption =
      ((members.map Member.entry).foldlM Draft.add? {}).map (·, tokens rest) := by
  rw [tokens_object]
  exact toOption_readObject inner members rest

/-! ## The outer object -/

/-- What the root says if it has no member or `general` alone. -/
def readRoot? (members : List (Member Value)) : Option Draft :=
  match members with
  | [] => some {}
  | [m] =>
    if m.key.decode? = some generalKey.toList then m.value.entries.foldlM Draft.add? {} else none
  | _ => none

theorem toOption_closeRoot (members : List (Member Value)) (rest : List Char) :
    (closeRoot (tokens (laterTexts members ++ '\x7d' :: rest))).toOption =
      if members = [] then some (tokens rest) else none := by
  cases members with
  | nil =>
    have hclose : tokens ('\x7d' :: rest) = .mark '\x7d' :: tokens rest := tokens_of_mark rfl rest
    exact congrArg (fun ts ↦ (closeRoot ts).toOption) hclose
  | cons m members =>
    rw [laterTexts_cons, tokens_of_mark rfl, closeRoot]
    split
    · rfl
    · rfl

theorem readRootObject_of_ne_mark {t : Token} (h : ∀ c, t ≠ .mark c) (more : List Token) :
    readRootObject (t :: more) =
      readKey (t :: more) >>= fun (key, rest) ↦
        if key = generalKey.toList then
          expect ':' rest >>= fun rest ↦ readGeneral rest >>= fun (d, rest) ↦
            closeRoot rest >>= fun rest ↦ .ok (d, rest)
        else .error .unsuitable := by
  cases t with
  | mark c => exact absurd rfl (h c)
  | _ => rfl

theorem readRoot?_of_key {m : Member Value} (h : m.key.decode? = some generalKey.toList)
    (members : List (Member Value)) :
    readRoot? (m :: members) =
      if members = [] then m.value.entries.foldlM Draft.add? {} else none := by
  cases members with
  | nil => rw [readRoot?, if_pos h, if_pos rfl]
  | cons m' members => rw [if_neg (List.cons_ne_nil m' members)]; rfl

theorem readRoot?_of_key_ne {m : Member Value} (h : m.key.decode? ≠ some generalKey.toList)
    (members : List (Member Value)) : readRoot? (m :: members) = none := by
  cases members with
  | nil => exact if_neg h
  | cons m' members => rfl

/-- Reading goes on behind the value of `general`, where only the end of the root may follow. -/
theorem toOption_readGeneral_closeRoot {m : Member Value} {inner : Gap}
    {inside : List (Member Value)} (hvalue : m.value = .object inner inside)
    (hkey : m.key.decode? = some generalKey.toList) (members : List (Member Value))
    (rest : List Char) :
    (readGeneral (tokens (m.value.text ++
      (m.after.text ++ (laterTexts members ++ '\x7d' :: rest)))) >>= fun (d, rest) ↦
        closeRoot rest >>= fun rest ↦ .ok (d, rest)).toOption =
      (readRoot? (m :: members)).map (·, tokens rest) := by
  rw [toOption_bind, readRoot?_of_key hkey, hvalue, Value.entries, toOption_readGeneral,
    tokens_gap]
  cases List.foldlM Draft.add? {} (inside.map Member.entry) with
  | none => rw [ite_self]; rfl
  | some d =>
    dsimp only [Option.map_some, Option.bind_some]
    rw [toOption_bind, toOption_closeRoot]
    split
    · rfl
    · rfl

theorem toOption_readRootObject (inner : Gap) (members : List (Member Value)) (rest : List Char)
    (hgeneral : ∀ m ∈ members.find? fun m ↦ m.key.decode? = some "general".toList,
      ∃ inner inside, m.value = .object inner inside) :
    (readRootObject (tokens (objectText inner members ++ rest))).toOption =
      (readRoot? members).map (·, tokens rest) := by
  cases members with
  | nil =>
    rw [tokens_objectText_nil]
    rfl
  | cons m members =>
    obtain ⟨t, more, hstart, hmark⟩ :=
      exists_tokens_memberText m (laterTexts members ++ '\x7d' :: rest)
    rw [objectText_cons, tokens_gap, hstart, readRootObject_of_ne_mark hmark, toOption_bind,
      ← hstart, memberText_append, tokens_gap, toOption_readKey]
    cases hkey : m.key.decode? with
    | none => rw [readRoot?_of_key_ne (by simp [hkey])]; rfl
    | some key =>
      dsimp only [Option.map_some, Option.bind_some]
      by_cases hname : key = generalKey.toList
      · subst hname
        obtain ⟨inner, inside, hvalue⟩ := hgeneral m (List.find?_cons_of_pos (decide_eq_true hkey))
        rw [if_pos rfl, toOption_bind, toOption_expect_colon, Option.bind_some]
        exact toOption_readGeneral_closeRoot hvalue hkey members rest
      · have hne : m.key.decode? ≠ some generalKey.toList := by simp [hkey, hname]
        rw [if_neg hname, readRoot?_of_key_ne hne]
        rfl

/-- The value of the member `general`, of the first if it is repeated, is an object. -/
def GeneralIsObject (d : Document) : Prop :=
  ∀ m ∈ d.members.find? fun m ↦ m.key.decode? = some "general".toList,
    ∃ inner inside, m.value = .object inner inside

/-- The text of a document is read as what its root says. -/
theorem toOption_ofText (d : Document) (h : GeneralIsObject d) :
    (ofText d.text).toOption = (readRoot? d.members).map Draft.settings := by
  have htokens : tokens d.text.toList =
      .mark '\x7b' :: tokens (objectText d.inner d.members ++ (d.after.text ++ [])) := by
    rw [← tokens_object, Document.text, String.toList_ofList, List.append_assoc, tokens_gap,
      List.append_nil]
  have hend : tokens (d.after.text ++ []) = [] := by
    rw [tokens_gap, tokens]
  have hread := toOption_readRootObject d.inner d.members (d.after.text ++ []) h
  rw [hend] at hread
  rw [ofText, htokens, ofTokens, toOption_bind]
  change ((readRootObject _).toOption.bind _) = _
  rw [hread]
  cases readRoot? d.members <;> rfl

end Settings

end OctetMachine
