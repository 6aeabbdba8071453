import OctetMachine.Proofs.Reading

/-!
# The form of a settings file

A settings file is an object with at most the member `general`, an object whose three members are
optional. Those texts and no others are accepted, and the settings are what the values mean. Roots
and inner values that are arrays are left aside. `ReadsDocuments` says so of any reader, which fixes
the settings whatever the order and the spelling. The reader at hand is shown to be of this kind.
-/

namespace OctetMachine.Settings

open JsonText

/-! ## What a document may say -/

/-- A value is true or false. -/
def IsFlag (v : Value) (b : Bool) : Prop := v = .word (if b then .true else .false)

/-- A value is a natural number up to a greatest one, written as digits alone, or null. -/
inductive IsNatural (greatest : Nat) : Value → Option Nat → Prop
  | null : IsNatural greatest (.word .null) none
  | natural (x : Decimal) (hwhole : x.IsWhole) (hgreatest : x.whole.value ≤ greatest) :
    IsNatural greatest (.number x) (some x.whole.value)

/-- Both objects have known members only, each of them once, and their values have the form that
their keys ask for. -/
structure Conforms (d : Document) : Prop where
  root_known : ∀ key ∈ d.keys, key = some "general".toList
  root_once : d.keys.Nodup
  known : ∀ entry ∈ d.entries, entry.1 = some "trace_instructions".toList ∨
    entry.1 = some "initial_sp".toList ∨ entry.1 = some "max_instructions".toList
  once : (d.entries.map Prod.fst).Nodup
  tracing : ∀ v, (some "trace_instructions".toList, v) ∈ d.entries → ∃ b, IsFlag v b
  stackPointer : ∀ v, (some "initial_sp".toList, v) ∈ d.entries → ∃ n, IsNatural 255 v n
  budget : ∀ v, (some "max_instructions".toList, v) ∈ d.entries → ∃ n, IsNatural (2 ^ 64 - 1) v n

/-- A setting is what the value under its key means or, without one, the default. -/
def Given {α : Type} (entries : List Entry) (key : String) (default : α) (Means : Value → α → Prop)
    (x : α) : Prop :=
  (∀ v, (some key.toList, v) ∈ entries → Means v x) ∧
    ((∀ v, (some key.toList, v) ∉ entries) → x = default)

/-- The settings are those that a document gives. -/
structure Gives (d : Document) (s : Settings) : Prop where
  tracing : Given d.entries "trace_instructions" false IsFlag s.tracing
  stackPointer :
    Given d.entries "initial_sp" none (IsNatural 255) (s.stackPointer.map UInt8.toNat)
  budget :
    Given d.entries "max_instructions" none (IsNatural (2 ^ 64 - 1)) (s.budget.map UInt64.toNat)

/-! ## Values -/

theorem flag?_eq_some_iff (v : Value) (b : Bool) : flag? v = some b ↔ IsFlag v b := by
  cases v with
  | word w => cases w <;> cases b <;> simp [flag?, IsFlag]
  | _ => simp [flag?, IsFlag]

theorem natural?_eq_some_iff (greatest : Nat) (v : Value) (n : Option Nat) :
    natural? greatest v = some n ↔ IsNatural greatest v n := by
  constructor
  · intro h
    unfold natural? at h
    split at h
    · cases h
      exact .null
    · split at h
      · rename_i x hx
        cases h
        exact .natural x hx.1 hx.2
      · cases h
    · cases h
  · rintro (_ | ⟨x, hwhole, hgreatest⟩)
    · rfl
    · exact if_pos ⟨hwhole, hgreatest⟩

theorem IsNatural.le {greatest n : Nat} {v : Value} (h : IsNatural greatest v (some n)) :
    n ≤ greatest := by
  cases h with
  | natural x hwhole hgreatest => exact hgreatest

theorem IsFlag.unique {v : Value} {b c : Bool} (hb : IsFlag v b) (hc : IsFlag v c) : b = c :=
  Option.some.inj (((flag?_eq_some_iff v b).mpr hb).symm.trans ((flag?_eq_some_iff v c).mpr hc))

theorem IsNatural.unique {greatest : Nat} {v : Value} {m n : Option Nat}
    (hm : IsNatural greatest v m) (hn : IsNatural greatest v n) : m = n :=
  Option.some.inj (((natural?_eq_some_iff greatest v m).mpr hm).symm.trans
    ((natural?_eq_some_iff greatest v n).mpr hn))

/-! ## Fields -/

namespace Field

theorem ofKey?_eq_some_iff (key : List Char) (f : Field) :
    ofKey? key = some f ↔ key = f.key.toList := by
  constructor
  · intro h
    have hkey := List.find?_some h
    exact (beq_iff_eq.mp hkey).symm
  · rintro rfl
    cases f <;> rfl

theorem key_toList_inj {f g : Field} (h : f.key.toList = g.key.toList) : f = g :=
  Option.some.inj (((ofKey?_eq_some_iff _ f).mpr rfl).symm.trans ((ofKey?_eq_some_iff _ g).mpr h))

/-- The values that a field takes. -/
def Accepts (f : Field) (v : Value) : Prop :=
  match f with
  | .tracing => ∃ b, IsFlag v b
  | .stackPointer => ∃ n, IsNatural (UInt8.size - 1) v n
  | .budget => ∃ n, IsNatural (UInt64.size - 1) v n

/-- A value means what settings hold in a field. -/
def Means (f : Field) (v : Value) (s : Settings) : Prop :=
  match f with
  | .tracing => IsFlag v s.tracing
  | .stackPointer => IsNatural (UInt8.size - 1) v (s.stackPointer.map UInt8.toNat)
  | .budget => IsNatural (UInt64.size - 1) v (s.budget.map UInt64.toNat)

/-- Settings have in a field what older ones had. -/
def Keeps (f : Field) (s old : Settings) : Prop :=
  match f with
  | .tracing => s.tracing = old.tracing
  | .stackPointer => s.stackPointer.map UInt8.toNat = old.stackPointer.map UInt8.toNat
  | .budget => s.budget.map UInt64.toNat = old.budget.map UInt64.toNat

theorem Keeps.refl (f : Field) (s : Settings) : f.Keeps s s := by
  cases f <;> rfl

theorem Keeps.trans {f : Field} {s t u : Settings} (h : f.Keeps s t) (h' : f.Keeps t u) :
    f.Keeps s u := by
  cases f <;> exact Eq.trans h h'

theorem Keeps.means {f : Field} {s old : Settings} {v : Value} (h : f.Keeps s old)
    (hmeans : f.Means v old) : f.Means v s := by
  cases f <;> (simp only [Keeps, Means] at *; rwa [h])

end Field

/-- A number that is not too great is kept by a word. -/
theorem IsNatural.map_map {α : Type} {toWord : Nat → α} {toNat : α → Nat} {greatest : Nat}
    (hword : ∀ n ≤ greatest, toNat (toWord n) = n) {v : Value} {n : Option Nat}
    (h : IsNatural greatest v n) : (n.map toWord).map toNat = n := by
  cases n with
  | none => rfl
  | some n => exact congrArg some (hword n h.le)

namespace Draft

theorem exists_map_iff {α β : Type} (x : Option α) (f : α → β) :
    (∃ b, x.map f = some b) ↔ ∃ a, x = some a := by
  cases x with
  | none => simp
  | some a => simp

theorem exists_put?_iff (d : Draft) (f : Field) (v : Value) :
    (∃ e, d.put? f v = some e) ↔ f.Accepts v := by
  cases f <;>
    simp only [put?, Field.Accepts, exists_map_iff, flag?_eq_some_iff, natural?_eq_some_iff]

/-- Taking a value sets its field and no other one. -/
theorem put?_eq_some {d e : Draft} {f : Field} {v : Value} (h : d.put? f v = some e) :
    f.Means v e.settings ∧ (∀ g, g ≠ f → g.Keeps e.settings d.settings) ∧ e.seen = f :: d.seen := by
  cases f with
  | tracing =>
    obtain ⟨b, hb, rfl⟩ := Option.map_eq_some_iff.mp h
    refine ⟨(flag?_eq_some_iff v b).mp hb, fun g hg ↦ ?_, rfl⟩
    cases g <;> first | rfl | exact absurd rfl hg
  | stackPointer =>
    obtain ⟨n, hn, rfl⟩ := Option.map_eq_some_iff.mp h
    have hnatural := (natural?_eq_some_iff _ v n).mp hn
    refine ⟨?_, fun g hg ↦ ?_, rfl⟩
    · rwa [Field.Means, hnatural.map_map fun n hn ↦ UInt8.toNat_ofNat_of_lt' (Nat.lt_succ_of_le hn)]
    · cases g <;> first | rfl | exact absurd rfl hg
  | budget =>
    obtain ⟨n, hn, rfl⟩ := Option.map_eq_some_iff.mp h
    have hnatural := (natural?_eq_some_iff _ v n).mp hn
    refine ⟨?_, fun g hg ↦ ?_, rfl⟩
    · rwa [Field.Means,
        hnatural.map_map fun n hn ↦ UInt64.toNat_ofNat_of_lt' (Nat.lt_succ_of_le hn)]
    · cases g <;> first | rfl | exact absurd rfl hg

theorem add?_eq_some_iff (d e : Draft) (entry : Entry) :
    d.add? entry = some e ↔
      ∃ f, entry.1 = some f.key.toList ∧ f ∉ d.seen ∧ d.put? f entry.2 = some e := by
  simp only [add?, Option.bind_eq_some_iff, Field.ofKey?_eq_some_iff, List.contains_iff_mem]
  constructor
  · rintro ⟨f, ⟨key, hkey, rfl⟩, h⟩
    split at h
    · cases h
    · exact ⟨f, hkey, ‹_›, h⟩
  · rintro ⟨f, hkey, hseen, h⟩
    exact ⟨f, ⟨_, hkey, rfl⟩, by rwa [if_neg hseen]⟩

end Draft

/-! ## Members one after another -/

/-- Members that can be read when some fields have been seen. -/
structure Fits (seen : List Field) (entries : List Entry) : Prop where
  known : ∀ entry ∈ entries, ∃ f, entry.1 = some f.key.toList ∧ f ∉ seen ∧ f.Accepts entry.2
  once : (entries.map Prod.fst).Nodup

theorem fits_nil (seen : List Field) : Fits seen [] where
  known := by simp
  once := List.nodup_nil

theorem fits_cons_iff (seen : List Field) (entry : Entry) (entries : List Entry) :
    Fits seen (entry :: entries) ↔
      ∃ f, entry.1 = some f.key.toList ∧ f ∉ seen ∧ f.Accepts entry.2 ∧
        Fits (f :: seen) entries := by
  constructor
  · intro h
    obtain ⟨f, hkey, hseen, haccepts⟩ := h.known entry List.mem_cons_self
    obtain ⟨hfirst, honce⟩ := List.nodup_cons.mp h.once
    refine ⟨f, hkey, hseen, haccepts, fun other hother ↦ ?_, honce⟩
    obtain ⟨g, hother', hg, haccepts'⟩ := h.known other (List.mem_cons_of_mem _ hother)
    refine ⟨g, hother', ?_, haccepts'⟩
    rintro (_ | ⟨_, hmem⟩)
    · exact hfirst (hkey ▸ hother' ▸ List.mem_map_of_mem hother)
    · exact hg hmem
  · rintro ⟨f, hkey, hseen, haccepts, hknown, honce⟩
    constructor
    · rintro other (_ | ⟨_, hother⟩)
      · exact ⟨f, hkey, hseen, haccepts⟩
      · obtain ⟨g, hother', hg, haccepts'⟩ := hknown other hother
        exact ⟨g, hother', fun hmem ↦ hg (List.mem_cons_of_mem _ hmem), haccepts'⟩
    · refine List.nodup_cons.mpr ⟨fun hmem ↦ ?_, honce⟩
      obtain ⟨other, hother, heq⟩ := List.mem_map.mp hmem
      obtain ⟨g, hother', hg, -⟩ := hknown other hother
      have hkeys : some f.key.toList = some g.key.toList :=
        hkey.symm.trans (heq.symm.trans hother')
      have hfg : f = g := Field.key_toList_inj (Option.some.inj hkeys)
      exact hg (hfg ▸ List.mem_cons_self)

theorem exists_foldlM_add?_iff (entries : List Entry) (d : Draft) :
    (∃ e, entries.foldlM Draft.add? d = some e) ↔ Fits d.seen entries := by
  induction entries generalizing d with
  | nil => exact ⟨fun _ ↦ fits_nil _, fun _ ↦ ⟨d, rfl⟩⟩
  | cons entry entries ih =>
    rw [fits_cons_iff]
    simp only [List.foldlM_cons, Option.bind_eq_bind, Option.bind_eq_some_iff,
      Draft.add?_eq_some_iff]
    constructor
    · rintro ⟨e, d', ⟨f, hkey, hseen, hput⟩, hrest⟩
      have hfits := (ih d').mp ⟨e, hrest⟩
      rw [(Draft.put?_eq_some hput).2.2] at hfits
      exact ⟨f, hkey, hseen, (d.exists_put?_iff f entry.2).mp ⟨d', hput⟩, hfits⟩
    · rintro ⟨f, hkey, hseen, haccepts, hfits⟩
      obtain ⟨d', hput⟩ := (d.exists_put?_iff f entry.2).mpr haccepts
      rw [← (Draft.put?_eq_some hput).2.2] at hfits
      obtain ⟨e, hrest⟩ := (ih d').mpr hfits
      exact ⟨e, d', ⟨f, hkey, hseen, hput⟩, hrest⟩

/-- A field has the value of its member or, without one, what it had before. -/
theorem given_of_foldlM_add? {entries : List Entry} {d e : Draft}
    (h : entries.foldlM Draft.add? d = some e) (f : Field) :
    (∀ v, (some f.key.toList, v) ∈ entries → f.Means v e.settings) ∧
      ((∀ v, (some f.key.toList, v) ∉ entries) → f.Keeps e.settings d.settings) := by
  induction entries generalizing d with
  | nil =>
    cases h
    exact ⟨by simp, fun _ ↦ .refl f _⟩
  | cons entry entries ih =>
    obtain ⟨d', hadd, hrest⟩ := Option.bind_eq_some_iff.mp (List.foldlM_cons.symm.trans h)
    obtain ⟨g, hkey, -, hput⟩ := (d.add?_eq_some_iff d' entry).mp hadd
    obtain ⟨hmeans, hkeeps, hseen⟩ := Draft.put?_eq_some hput
    obtain ⟨hpresent, habsent⟩ := ih hrest
    by_cases hfg : f = g
    · -- The member sets the field, and none behind it has the same key.
      subst hfg
      have hfits := (exists_foldlM_add?_iff entries d').mp ⟨e, hrest⟩
      have hnone : ∀ v, (some f.key.toList, v) ∉ entries := by
        intro v hmem
        obtain ⟨g, hother, hg, -⟩ := hfits.known _ hmem
        have hfg := Field.key_toList_inj (Option.some.inj hother)
        exact hg (hseen ▸ hfg ▸ List.mem_cons_self)
      refine ⟨fun v hmem ↦ ?_, fun habsent' ↦ ?_⟩
      · rcases List.mem_cons.mp hmem with rfl | hmem
        · exact (habsent hnone).means hmeans
        · exact absurd hmem (hnone v)
      · exact absurd List.mem_cons_self (hkey ▸ habsent' entry.2)
    · -- The member is about another field.
      have hne : ∀ v, (some f.key.toList, v) ≠ entry := by
        rintro v rfl
        exact hfg (Field.key_toList_inj (Option.some.inj hkey))
      refine ⟨fun v hmem ↦ ?_, fun habsent' ↦ ?_⟩
      · exact hpresent v ((List.mem_cons.mp hmem).resolve_left (hne v))
      · exact (habsent fun v hmem ↦ habsent' v (List.mem_cons_of_mem _ hmem)).trans (hkeeps f hfg)

/-! ## Documents -/

theorem readRoot?_of_keys {d : Document} (hknown : ∀ key ∈ d.keys, key = some "general".toList)
    (honce : d.keys.Nodup) : readRoot? d.members = d.entries.foldlM Draft.add? {} := by
  obtain ⟨before, inner, members, after⟩ := d
  match members with
  | [] => rfl
  | [m] =>
    have hkey : m.key.decode? = some "general".toList := hknown _ List.mem_cons_self
    have hentries : Document.entries ⟨before, inner, [m], after⟩ = m.value.entries :=
      (List.flatMap_singleton _ m).trans (if_pos hkey)
    rw [hentries]
    exact if_pos hkey
  | m :: m' :: rest =>
    have hfirst : m.key.decode? = some "general".toList := hknown _ List.mem_cons_self
    have hsecond : m'.key.decode? = some "general".toList :=
      hknown _ (List.mem_cons_of_mem _ List.mem_cons_self)
    have hnot := (List.nodup_cons.mp honce).1
    exact absurd (List.mem_cons.mpr (.inl (hfirst.trans hsecond.symm))) hnot

theorem keys_of_readRoot? {d : Document} {e : Draft} (h : readRoot? d.members = some e) :
    (∀ key ∈ d.keys, key = some "general".toList) ∧ d.keys.Nodup := by
  obtain ⟨before, inner, members, after⟩ := d
  match members with
  | [] => exact ⟨by simp [Document.keys], by simp [Document.keys]⟩
  | [m] =>
    have hkey : m.key.decode? = some "general".toList := by
      by_cases hkey : m.key.decode? = some "general".toList
      · exact hkey
      · exact absurd (h.symm.trans (if_neg hkey)) (by simp)
    exact ⟨by simp [Document.keys, hkey], by simp [Document.keys]⟩
  | m :: m' :: rest => cases h

theorem exists_readRoot?_iff (d : Document) :
    (∃ e, readRoot? d.members = some e) ↔
      (∀ key ∈ d.keys, key = some "general".toList) ∧ d.keys.Nodup ∧ Fits [] d.entries := by
  constructor
  · rintro ⟨e, h⟩
    obtain ⟨hknown, honce⟩ := keys_of_readRoot? h
    rw [readRoot?_of_keys hknown honce] at h
    exact ⟨hknown, honce, (exists_foldlM_add?_iff d.entries {}).mp ⟨e, h⟩⟩
  · rintro ⟨hknown, honce, hfits⟩
    rw [readRoot?_of_keys hknown honce]
    exact (exists_foldlM_add?_iff d.entries {}).mpr hfits

theorem exists_field_key_iff (key : Option (List Char)) :
    (∃ f : Field, key = some f.key.toList) ↔ key = some "trace_instructions".toList ∨
      key = some "initial_sp".toList ∨ key = some "max_instructions".toList := by
  constructor
  · rintro ⟨_ | _ | _, rfl⟩
    · exact .inl rfl
    · exact .inr (.inl rfl)
    · exact .inr (.inr rfl)
  · rintro (rfl | rfl | rfl)
    · exact ⟨.tracing, rfl⟩
    · exact ⟨.stackPointer, rfl⟩
    · exact ⟨.budget, rfl⟩

theorem conforms_iff (d : Document) :
    Conforms d ↔
      (∀ key ∈ d.keys, key = some "general".toList) ∧ d.keys.Nodup ∧ Fits [] d.entries := by
  constructor
  · intro h
    refine ⟨h.root_known, h.root_once, fun entry hentry ↦ ?_, h.once⟩
    obtain ⟨f, hkey⟩ := (exists_field_key_iff entry.1).mpr (h.known entry hentry)
    have hmem : (some f.key.toList, entry.2) ∈ d.entries := hkey ▸ hentry
    refine ⟨f, hkey, List.not_mem_nil, ?_⟩
    cases f with
    | tracing => exact h.tracing _ hmem
    | stackPointer => exact h.stackPointer _ hmem
    | budget => exact h.budget _ hmem
  · rintro ⟨hknown, honce, hfits⟩
    have haccepts : ∀ (f : Field) v, (some f.key.toList, v) ∈ d.entries → f.Accepts v := by
      intro f v hmem
      obtain ⟨g, hkey, -, haccepts⟩ := hfits.known _ hmem
      rwa [Field.key_toList_inj (Option.some.inj hkey)]
    constructor
    case root_known => exact hknown
    case root_once => exact honce
    case known =>
      intro entry hentry
      obtain ⟨f, hkey, -⟩ := hfits.known entry hentry
      exact (exists_field_key_iff entry.1).mp ⟨f, hkey⟩
    case once => exact hfits.once
    case tracing => exact haccepts .tracing
    case stackPointer => exact haccepts .stackPointer
    case budget => exact haccepts .budget

theorem ofText_eq_ok_iff {d : Document} (h : GeneralIsObject d) (s : Settings) :
    ofText d.text = .ok s ↔ ∃ e, readRoot? d.members = some e ∧ e.settings = s := by
  rw [← Option.map_eq_some_iff, ← toOption_ofText d h]
  cases ofText d.text <;> simp [Except.toOption]

theorem gives_of_readRoot? {d : Document} {e : Draft} (h : readRoot? d.members = some e) :
    Gives d e.settings := by
  obtain ⟨hknown, honce⟩ := keys_of_readRoot? h
  rw [readRoot?_of_keys hknown honce] at h
  have hgiven := given_of_foldlM_add? h
  constructor
  case tracing => exact hgiven .tracing
  case stackPointer => exact hgiven .stackPointer
  case budget => exact hgiven .budget

/-! ## Order and white space -/

theorem Conforms.of_perm {d e : Document} (h : Conforms d) (hkeys : e.keys.Perm d.keys)
    (hentries : e.entries.Perm d.entries) : Conforms e where
  root_known key hkey := h.root_known key (hkeys.mem_iff.mp hkey)
  root_once := hkeys.nodup_iff.mpr h.root_once
  known entry hentry := h.known entry (hentries.mem_iff.mp hentry)
  once := (hentries.map Prod.fst).nodup_iff.mpr h.once
  tracing v hv := h.tracing v (hentries.mem_iff.mp hv)
  stackPointer v hv := h.stackPointer v (hentries.mem_iff.mp hv)
  budget v hv := h.budget v (hentries.mem_iff.mp hv)

theorem Given.unique {α : Type} {entries entries' : List Entry} {key : String} {default x y : α}
    {Means : Value → α → Prop} (hx : Given entries key default Means x)
    (hy : Given entries' key default Means y) (hperm : entries'.Perm entries)
    (hunique : ∀ v x y, Means v x → Means v y → x = y) : x = y := by
  by_cases h : ∃ v, (some key.toList, v) ∈ entries
  · obtain ⟨v, hv⟩ := h
    exact hunique v x y (hx.1 v hv) (hy.1 v (hperm.mem_iff.mpr hv))
  · have habsent : ∀ v, (some key.toList, v) ∉ entries := fun v hv ↦ h ⟨v, hv⟩
    exact (hx.2 habsent).trans (hy.2 fun v hv ↦ habsent v (hperm.mem_iff.mp hv)).symm

theorem Gives.unique {d e : Document} {s t : Settings} (hs : Gives d s) (ht : Gives e t)
    (hperm : e.entries.Perm d.entries) : s = t := by
  have htracing := hs.tracing.unique ht.tracing hperm fun _ _ _ ↦ IsFlag.unique
  have hstack := hs.stackPointer.unique ht.stackPointer hperm fun _ _ _ ↦ IsNatural.unique
  have hbudget := hs.budget.unique ht.budget hperm fun _ _ _ ↦ IsNatural.unique
  obtain ⟨tracing, stackPointer, budget⟩ := s
  obtain ⟨tracing', stackPointer', budget'⟩ := t
  rw [Option.map_inj_right fun _ _ ↦ UInt8.toNat_inj.mp] at hstack
  rw [Option.map_inj_right fun _ _ ↦ UInt64.toNat_inj.mp] at hbudget
  exact congr (congr (congrArg Settings.mk htracing) hstack) hbudget

theorem exists_ofText_iff {d : Document} (h : GeneralIsObject d) :
    (∃ s, ofText d.text = .ok s) ↔ Conforms d := by
  rw [conforms_iff, ← exists_readRoot?_iff]
  simp only [ofText_eq_ok_iff h]
  exact ⟨fun ⟨_, e, he, _⟩ ↦ ⟨e, he⟩, fun ⟨e, he⟩ ↦ ⟨e.settings, e, he, rfl⟩⟩

theorem gives_of_ofText {d : Document} (h : GeneralIsObject d) {s : Settings}
    (hs : ofText d.text = .ok s) : Gives d s := by
  obtain ⟨e, he, rfl⟩ := (ofText_eq_ok_iff h s).mp hs
  exact gives_of_readRoot? he

/-! ## Readers -/

/-- A reader of settings files takes those documents that have their form, and gives what they give.
Of documents whose member `general` is something else than an object nothing is said. -/
structure ReadsDocuments {ε : Type} (read : String → Except ε Settings) : Prop where
  accepts : ∀ d, GeneralIsObject d → ((∃ s, read d.text = .ok s) ↔ Conforms d)
  gives : ∀ d s, GeneralIsObject d → read d.text = .ok s → Gives d s

theorem readsDocuments_ofText : ReadsDocuments ofText where
  accepts _ h := exists_ofText_iff h
  gives _ _ h := gives_of_ofText h

namespace ReadsDocuments

variable {ε ε' : Type} {read : String → Except ε Settings} {read' : String → Except ε' Settings}

theorem mapError (h : ReadsDocuments read) (f : ε → ε') :
    ReadsDocuments fun text ↦ (read text).mapError f := by
  constructor
  case accepts =>
    intro d hd
    simp only [mapError_eq_ok_iff]
    exact h.accepts d hd
  case gives =>
    intro d s hd hs
    exact h.gives d s hd (mapError_eq_ok_iff.mp hs)

/-- What one reader takes, another one takes with its members in another order or layout. -/
theorem ok_of_perm (h : ReadsDocuments read) (h' : ReadsDocuments read') {d e : Document}
    (hd : GeneralIsObject d) (he : GeneralIsObject e) (hkeys : e.keys.Perm d.keys)
    (hentries : e.entries.Perm d.entries) {s : Settings} (hs : read d.text = .ok s) :
    read' e.text = .ok s := by
  have hconforms : Conforms e := ((h.accepts d hd).mp ⟨s, hs⟩).of_perm hkeys hentries
  obtain ⟨t, ht⟩ := (h'.accepts e he).mpr hconforms
  rw [ht, (h.gives d s hd hs).unique (h'.gives e t he ht) hentries]

/-- Readers agree on what they take and on the settings, whatever the order and the layout. -/
theorem toOption_eq (h : ReadsDocuments read) (h' : ReadsDocuments read') {d e : Document}
    (hd : GeneralIsObject d) (he : GeneralIsObject e) (hkeys : e.keys.Perm d.keys)
    (hentries : e.entries.Perm d.entries) :
    (read' e.text).toOption = (read d.text).toOption := by
  cases hread : read d.text with
  | ok s =>
    rw [h.ok_of_perm h' hd he hkeys hentries hread]
    rfl
  | error p =>
    cases hread' : read' e.text with
    | error q => rfl
    | ok t =>
      rw [h'.ok_of_perm h he hd hkeys.symm hentries.symm hread'] at hread
      cases hread

end ReadsDocuments

/-- A document is accepted exactly if it has the form of a settings file, and then the settings are
those that it gives, whatever its order, its white space and its spelling of keys. -/
theorem ofText_document (d : Document) (h : GeneralIsObject d) :
    ((∃ s, ofText d.text = .ok s) ↔ Conforms d) ∧
      (∀ s, ofText d.text = .ok s → Gives d s) ∧
      ∀ e, GeneralIsObject e → e.keys.Perm d.keys → e.entries.Perm d.entries →
        (ofText e.text).toOption = (ofText d.text).toOption :=
  ⟨readsDocuments_ofText.accepts d h, fun s ↦ readsDocuments_ofText.gives d s h,
    fun _ ↦ readsDocuments_ofText.toOption_eq readsDocuments_ofText h⟩

/-- The greatest number that fits in a 64-bit word. -/
def greatestWord : Decimal where
  whole := ⟨1, [8, 4, 4, 6, 7, 4, 4, 0, 7, 3, 7, 0, 9, 5, 5, 1, 6, 1, 5]⟩
  noLeadingZero := by decide

/-- A document with an escape in a key, the greatest limit and the members in another order. -/
def escapedDocument : Document where
  before := [.blank]
  members := [{
    key := Quotation.plainly "gener" ++ [.unit ⟨⟨0, false⟩, ⟨0, false⟩, ⟨6, false⟩, ⟨1, false⟩⟩] ++
      Quotation.plainly "l"
    afterKey := [.blank]
    beforeValue := [.carriageReturn, .lineFeed]
    value := .object [] [
      { key := Quotation.plainly "max_instructions", beforeValue := [.tab]
        value := .number greatestWord, after := [.blank] },
      { before := [.lineFeed], key := Quotation.plainly "initial_sp", value := .word .null },
      { key := Quotation.plainly "trace_instructions", value := .word .true }] }]
  after := [.lineFeed]

theorem entries_escapedDocument : escapedDocument.entries =
    [(some "max_instructions".toList, .number greatestWord),
      (some "initial_sp".toList, .word .null), (some "trace_instructions".toList, .word .true)] :=
  rfl

theorem conforms_escapedDocument : Conforms escapedDocument := by
  have hkeys : escapedDocument.keys = [some "general".toList] := rfl
  rw [conforms_iff, hkeys, entries_escapedDocument]
  simp only [fits_cons_iff]
  exact ⟨fun key hkey ↦ List.eq_of_mem_singleton hkey, List.pairwise_singleton _ _,
    .budget, rfl, by decide, ⟨_, .natural greatestWord ⟨rfl, rfl, rfl⟩ (by decide)⟩,
    .stackPointer, rfl, by decide, ⟨_, .null⟩, .tracing, rfl, by decide, ⟨true, rfl⟩, fits_nil _⟩

theorem ofText_escapedDocument :
    GeneralIsObject escapedDocument ∧
      ofText (" \x7b\"gener\\u0061l\" :\r\n\x7b\"max_instructions\":\t18446744073709551615 ,\n" ++
          "\"initial_sp\":null,\"trace_instructions\":true\x7d\x7d\n") =
        .ok { tracing := true, stackPointer := none, budget := some 18446744073709551615 } := by
  have htext : escapedDocument.text =
      " \x7b\"gener\\u0061l\" :\r\n\x7b\"max_instructions\":\t18446744073709551615 ,\n" ++
        "\"initial_sp\":null,\"trace_instructions\":true\x7d\x7d\n" := by
    decide +kernel
  have hgeneral : GeneralIsObject escapedDocument := by
    rintro m ⟨⟩
    exact ⟨_, _, rfl⟩
  obtain ⟨haccepted, hgives, -⟩ := ofText_document escapedDocument hgeneral
  obtain ⟨s, hs⟩ := haccepted.mpr conforms_escapedDocument
  obtain ⟨⟨htracing, -⟩, ⟨hstack, -⟩, ⟨hbudget, -⟩⟩ := hgives s hs
  rw [entries_escapedDocument] at htracing hstack hbudget
  have htracing := (htracing (.word .true) (.tail _ (.tail _ (.head _)))).unique
    (show IsFlag (.word .true) true from rfl)
  have hstack := (hstack (.word .null) (.tail _ (.head _))).unique .null
  have hbudget := (hbudget (.number greatestWord) (.head _)).unique
    (.natural greatestWord ⟨rfl, rfl, rfl⟩ (by decide))
  have hword : some greatestWord.whole.value =
      (some (18446744073709551615 : UInt64)).map UInt64.toNat := by decide
  rw [hword, Option.map_inj_right fun _ _ ↦ UInt64.toNat_inj.mp] at hbudget
  rw [Option.map_eq_none_iff] at hstack
  rw [htext] at hs
  refine ⟨hgeneral, hs.trans (congrArg Except.ok ?_)⟩
  exact congr (congr (congrArg Settings.mk htracing) hstack) hbudget

end OctetMachine.Settings
