import Templates.Arg
import Templates.Proofs.Mangling.Plain

/-!
# When a mangled name shows everything

Of types that are known in full and of constants that look like no other constant of their type
nothing is lost (`plain_inj`). Such arguments are read off a mangled name, up to the nesting of
sequences.
-/

namespace Templates

/-- A constant of the sort that the type has: truth values and characters have types of their own. -/
def Const.isShownAt (t : Ty) : Const → Bool
  | .bool _ => t.unqualified = .bool
  | .char _ => t.unqualified = .char
  | .int _ => t.unqualified ≠ .bool && t.unqualified ≠ .char
  | .str _ | .null => true
  | .standIn _ => false

mutual

/-- A mangled name shows all of the type. -/
def Ty.isShown : Ty → Bool
  | .basic _ | .named _ => true
  | .const t | .ptr t | .array t | .staticArray t (.known _) => t.isShown
  | .inst (.symbol _) as => Arg.areShown as
  | .staticArray _ _ | .inst (.param _) _ | .param _ | .standIn _ | .error => false

/-- A mangled name shows all of the argument, which is no sequence. -/
def Arg.isShown : Arg → Bool
  | .type t => t.isShown
  | .value t c => t.isShown && c.isShownAt t
  | .symbol _ => true
  | .tuple _ => false

def Arg.areShown : List Arg → Bool
  | [] => true
  | a :: as => a.isShown && Arg.areShown as

end

mutual

/-- A mangled name shows all of the type, where it shows the constants that fit their types. -/
def Ty.isShownBy (fits : Ty → Const → Bool) : Ty → Bool
  | .basic _ | .named _ => true
  | .const t | .ptr t | .array t | .staticArray t (.known _) => t.isShownBy fits
  | .inst (.symbol _) as => Arg.areShownBy fits as
  | .staticArray _ _ | .inst (.param _) _ | .param _ | .standIn _ | .error => false

def Arg.isShownBy (fits : Ty → Const → Bool) : Arg → Bool
  | .type t => t.isShownBy fits
  | .value t c => t.isShownBy fits && fits t c
  | .symbol _ => true
  | .tuple _ => false

def Arg.areShownBy (fits : Ty → Const → Bool) : List Arg → Bool
  | [] => true
  | a :: as => a.isShownBy fits && Arg.areShownBy fits as

end

theorem isShownBy_isShownAt :
    (∀ t : Ty, t.isShownBy Const.isShownAt = t.isShown) ∧
    (∀ a : Arg, a.isShownBy Const.isShownAt = a.isShown) ∧
    ∀ as : List Arg, Arg.areShownBy Const.isShownAt as = Arg.areShown as := by
  apply Ty.induct
  case staticArray =>
    intro t d ih
    cases d with
    | known => exact ih
    | param | standIn => rfl
  case inst =>
    intro r as ih
    cases r with
    | symbol => exact ih
    | param => rfl
  case cons =>
    intro a as iha ihas
    rw [Arg.areShownBy, Arg.areShown, iha, ihas]
  case value =>
    intro t c ih
    rw [Arg.isShownBy, Arg.isShown, ih]
  all_goals
    intros
    first
    | rfl
    | assumption

/-- No two constants that fit a type look alike: truth values and characters look like numbers, and
stand-ins like each other. -/
structure Const.Telling (fits : Ty → Const → Bool) : Prop where
  bool_int {t : Ty} {b : Bool} {n : Int} : fits t (.bool b) = true → fits t (.int n) = false
  char_int {t : Ty} {c : Char} {n : Int} : fits t (.char c) = true → fits t (.int n) = false
  bool_char {t : Ty} {b : Bool} {c : Char} : fits t (.bool b) = true → fits t (.char c) = false
  standIn {t : Ty} {p : Placeholder} : fits t (.standIn p) = false

variable {names : SymbolId → String} {fits : Ty → Const → Bool}

theorem Mangle.bool_injective {a b : Bool} (h : Mangle.bool a = Mangle.bool b) : a = b := by
  revert h
  cases a <;> cases b <;> decide

theorem Const.Telling.inj (H : Const.Telling fits) {t : Ty} {c d : Const} (hc : fits t c = true)
    (hd : fits t d = true) (h : c.plain = d.plain) : c = d := by
  cases c <;> cases d
  case int.int | str.str | null.null => exact h
  case bool.bool a b =>
    rw [Mangle.bool_injective (Int.ofNat.inj (Const.int.inj h))]
  case char.char a b =>
    rw [Char.toNat_inj.mp (Int.ofNat.inj (Const.int.inj h))]
  -- Either the sorts do not fit one type, or the constants look different.
  case int.bool => simp [H.bool_int hd] at hc
  case bool.int => simp [H.bool_int hc] at hd
  case int.char => simp [H.char_int hd] at hc
  case char.int => simp [H.char_int hc] at hd
  case bool.char => simp [H.bool_char hc] at hd
  case char.bool => simp [H.bool_char hd] at hc
  case standIn.standIn => simp [H.standIn] at hc
  all_goals cases h

theorem Const.isShownAt_telling : Const.Telling Const.isShownAt where
  bool_int h := by simp_all [isShownAt]
  char_int h := by simp_all [isShownAt]
  bool_char h := by simp_all [isShownAt]
  standIn := rfl

theorem TemplateRef.plain_inj (H : Function.Injective names) {s t : SymbolId}
    (h : (TemplateRef.symbol s).plain names = (TemplateRef.symbol t).plain names) : s = t := by
  unfold plain at h
  dsimp only at h
  split at h <;> split at h
  · next hs ht => exact H (hs.trans ht.symm)
  · cases h
  · cases h
  · exact TemplateRef.symbol.inj h

theorem Arg.length_plain {a : Arg} (h : a.isShownBy fits = true) : (a.plain names).length = 1 := by
  cases a with
  | tuple => cases h
  | type | value | symbol => rfl

theorem Arg.plainList_cons_ne_nil {a : Arg} {as : List Arg} (h : a.isShownBy fits = true) :
    Arg.plainList names (a :: as) ≠ [] := by
  rw [plainList]
  intro hnil
  have : (a.plain names).length = 1 := length_plain h
  simp [(List.append_eq_nil_iff.mp hnil).1] at this

/-- Arguments that are shown are told apart by what is plain. -/
theorem plain_inj (H : Function.Injective names) (hfits : Const.Telling fits) :
    (∀ t : Ty, t.isShownBy fits = true → ∀ u : Ty, u.isShownBy fits = true →
      t.plain names = u.plain names → t = u) ∧
    (∀ a : Arg, a.isShownBy fits = true → ∀ b : Arg, b.isShownBy fits = true →
      a.plain names = b.plain names → a = b) ∧
    ∀ as : List Arg, Arg.areShownBy fits as = true → ∀ bs, Arg.areShownBy fits bs = true →
      Arg.plainList names as = Arg.plainList names bs → as = bs := by
  apply Ty.induct
  case basic =>
    intro b _ u hu h
    cases u with
    | basic => exact h
    | param | standIn | error => cases hu
    | _ => cases h
  case named =>
    intro s _ u hu h
    cases u with
    | named => exact h
    | param | standIn | error => cases hu
    | _ => cases h
  case const =>
    intro t ih ht u hu h
    cases u with
    | const u => rw [ih ht u hu (Ty.const.inj h)]
    | param | standIn | error => cases hu
    | _ => cases h
  case ptr =>
    intro t ih ht u hu h
    cases u with
    | ptr u => rw [ih ht u hu (Ty.ptr.inj h)]
    | param | standIn | error => cases hu
    | _ => cases h
  case array =>
    intro t ih ht u hu h
    cases u with
    | array u => rw [ih ht u hu (Ty.array.inj h)]
    | param | standIn | error => cases hu
    | _ => cases h
  case staticArray =>
    intro t d ih ht u hu h
    cases u with
    | staticArray u e =>
      obtain ⟨htu, hde⟩ := Ty.staticArray.inj h
      cases d with
      | known m =>
        cases e with
        | known n =>
          rw [ih ht u hu htu, Dim.known.inj hde]
        | param | standIn => cases hu
      | param | standIn => cases ht
    | param | standIn | error => cases hu
    | _ => cases h
  case inst =>
    intro r as ih ht u hu h
    cases u with
    | inst q bs =>
      obtain ⟨hrq, has⟩ := Ty.inst.inj h
      cases r with
      | symbol s =>
        cases q with
        | symbol t => rw [TemplateRef.plain_inj H hrq, ih ht bs hu has]
        | param => cases hu
      | param => cases ht
    | param | standIn | error => cases hu
    | _ => cases h
  case param | standIn =>
    intro _ ht
    cases ht
  case error =>
    intro ht
    cases ht
  case type =>
    intro t ih ha b hb h
    cases b with
    | type u => rw [ih ha u hb (Arg.type.inj (List.cons.inj h).1)]
    | tuple => cases hb
    | _ => cases (List.cons.inj h).1
  case value =>
    intro t c ih ha b hb h
    obtain ⟨ht, hc⟩ := Bool.and_eq_true_iff.mp ha
    cases b with
    | value u d =>
      obtain ⟨hu, hd⟩ := Bool.and_eq_true_iff.mp hb
      obtain ⟨htu, hcd⟩ := Arg.value.inj (List.cons.inj h).1
      obtain rfl := ih ht u hu htu
      rw [hfits.inj hc hd hcd]
    | tuple => cases hb
    | _ => cases (List.cons.inj h).1
  case symbol =>
    intro s _ b hb h
    cases b with
    | symbol t => exact (List.cons.inj h).1
    | tuple => cases hb
    | _ => cases (List.cons.inj h).1
  case tuple =>
    intro elems _ ha
    cases ha
  case nil =>
    intro _ bs hbs h
    cases bs with
    | nil => rfl
    | cons b bs =>
      exact absurd h.symm (Arg.plainList_cons_ne_nil (Bool.and_eq_true_iff.mp hbs).1)
  case cons =>
    intro a as iha ihas ha bs hbs h
    obtain ⟨ha, has⟩ := Bool.and_eq_true_iff.mp ha
    cases bs with
    | nil =>
      exact absurd h (Arg.plainList_cons_ne_nil ha)
    | cons b bs =>
      obtain ⟨hb, hbs⟩ := Bool.and_eq_true_iff.mp hbs
      obtain ⟨hab, h⟩ := List.append_inj h (by rw [Arg.length_plain ha, Arg.length_plain hb])
      rw [iha ha b hb hab, ihas has bs hbs h]

namespace Arg

theorem plainList_append (as bs : List Arg) :
    plainList names (as ++ bs) = plainList names as ++ plainList names bs := by
  induction as with
  | nil => rfl
  | cons a as ih => rw [List.cons_append, plainList, plainList, ih, List.append_assoc]

/-- Whether elements stand in a sequence is not to be seen. -/
theorem plainList_flatten (as : List Arg) : plainList names (flatten as) = plainList names as := by
  induction as with
  | nil => rfl
  | cons a as ih =>
    rw [flatten, List.flatMap_cons, plainList_append, ← flatten, ih, plainList]
    cases a with
    | tuple elems => rfl
    | _ => simp [leaves, plainList]

/-- Shown arguments are known from what is plain, up to the sequences that they stand in. -/
theorem flatten_inj_of_shownBy (H : Function.Injective names) (hfits : Const.Telling fits)
    {as bs : List Arg} (has : areShownBy fits (flatten as) = true)
    (hbs : areShownBy fits (flatten bs) = true) (h : plainList names as = plainList names bs) :
    flatten as = flatten bs := by
  refine (plain_inj H hfits).2.2 _ has _ hbs ?_
  rw [plainList_flatten, plainList_flatten, h]

theorem flatten_inj (H : Function.Injective names) {as bs : List Arg}
    (has : areShown (flatten as) = true) (hbs : areShown (flatten bs) = true)
    (h : plainList names as = plainList names bs) : flatten as = flatten bs := by
  rw [← isShownBy_isShownAt.2.2] at has hbs
  exact flatten_inj_of_shownBy H Const.isShownAt_telling has hbs h

end Arg

end Templates
