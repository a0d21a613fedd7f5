import Templates.Proofs.Mangling.Plain

/-!
# Mangled names can be read

No entry of a mangled name is the beginning of another in a place where the rest does not begin with
a digit. So a name can be taken apart again, and two instances with one name have the same template
name and the same plain arguments (`mangle_eq_iff`).
-/

namespace Templates.Mangle

/-! ## Numbers and counted names -/

/-- The text does not begin with a digit. -/
def Clear (cs : List Char) : Prop := ∀ c ∈ cs.head?, c.isDigit = false

variable {cs ds r s : List Char} {m n : Nat}

theorem Clear.cons {c : Char} (h : c.isDigit = false) : Clear (c :: cs) := by
  rintro _ ⟨⟩
  exact h

theorem Clear.append (hc : Clear cs) (hr : Clear r) : Clear (cs ++ r) := by
  cases cs with
  | nil => exact hr
  | cons c cs => exact .cons (hc c rfl)

theorem takeWhile_digits (n : Nat) (hr : Clear r) :
    (digits n ++ r).takeWhile Char.isDigit = digits n := by
  have hdigits : ∀ c ∈ digits n, c.isDigit = true := fun c hc =>
    Nat.isDigit_of_mem_toDigits (by decide) (by decide) hc
  rw [List.takeWhile_append_of_pos hdigits]
  cases r with
  | nil => simp
  | cons c r => simp [hr c rfl]

theorem digits_append (hr : Clear r) (hs : Clear s) (h : digits m ++ r = digits n ++ s) :
    m = n ∧ r = s := by
  have hd : digits m = digits n := by rw [← takeWhile_digits m hr, h, takeWhile_digits n hs]
  refine ⟨?_, List.append_cancel_left (hd ▸ h)⟩
  have := congrArg (Nat.ofDigitChars 10 · 0) hd
  simpa [digits, Nat.ofDigitChars_ten_toDigits] using this

theorem eq_nil_of_byteLength (h : byteLength cs = 0) : cs = [] := by
  cases cs with
  | nil => rfl
  | cons c cs =>
    rw [byteLength_cons] at h
    have := c.utf8Size_pos
    omega

/-- Texts of one length in front of the same rests. -/
theorem append_of_byteLength (hl : byteLength cs = byteLength ds) (h : cs ++ r = ds ++ s) :
    cs = ds ∧ r = s := by
  obtain ⟨x, rfl, hs⟩ | ⟨x, rfl, hr⟩ := List.append_eq_append_iff.mp h
  · rw [byteLength_append] at hl
    have hx : byteLength x = 0 := by omega
    obtain rfl := eq_nil_of_byteLength hx
    exact ⟨(List.append_nil _).symm, hs⟩
  · rw [byteLength_append] at hl
    have hx : byteLength x = 0 := by omega
    obtain rfl := eq_nil_of_byteLength hx
    exact ⟨List.append_nil _, hr.symm⟩

theorem counted_append (hc : Clear (cs ++ r)) (hd : Clear (ds ++ s))
    (h : counted cs ++ r = counted ds ++ s) : cs = ds ∧ r = s := by
  rw [counted, counted, List.append_assoc, List.append_assoc] at h
  obtain ⟨hl, h⟩ := digits_append hc hd h
  exact append_of_byteLength hl h

/-! ## Constants -/

theorem digitChar_inj : ∀ m < 16, ∀ n < 16, m.digitChar = n.digitChar → m = n := by decide

theorem hexByte_injective {b c : UInt8} (h : hexByte b = hexByte c) : b = c := by
  obtain ⟨hhigh, h⟩ := List.cons.inj h
  obtain ⟨hlow, -⟩ := List.cons.inj h
  have hb := b.toNat_lt
  have hc := c.toNat_lt
  have := digitChar_inj (b.toNat / 16) (by omega) (c.toNat / 16) (by omega) hhigh
  have := digitChar_inj (b.toNat % 16) (by omega) (c.toNat % 16) (by omega) hlow
  exact UInt8.toNat_inj.mp (by omega)

theorem hex_append {bs cs : List UInt8} (hl : bs.length = cs.length)
    (h : bs.flatMap hexByte ++ r = cs.flatMap hexByte ++ s) : bs = cs ∧ r = s := by
  induction bs generalizing cs with
  | nil =>
    cases cs with
    | nil => exact ⟨rfl, h⟩
    | cons => cases hl
  | cons b bs ih =>
    cases cs with
    | nil => cases hl
    | cons c cs =>
      rw [List.flatMap_cons, List.flatMap_cons, List.append_assoc, List.append_assoc] at h
      obtain ⟨hb, hbs⟩ := List.append_inj h rfl
      obtain rfl := hexByte_injective hb
      obtain ⟨rfl, rfl⟩ := ih (Nat.succ.inj hl) hbs
      exact ⟨rfl, rfl⟩

theorem text_append {t u : String}
    (h : digits t.utf8ByteSize ++ '_' :: t.toUTF8.data.toList.flatMap hexByte ++ r =
      digits u.utf8ByteSize ++ '_' :: u.toUTF8.data.toList.flatMap hexByte ++ s) :
    t = u ∧ r = s := by
  rw [List.append_assoc, List.append_assoc] at h
  obtain ⟨hl, h⟩ := digits_append (.cons rfl) (.cons rfl) h
  obtain ⟨hbytes, rfl⟩ := hex_append (by simpa using hl) (List.cons.inj h).2
  refine ⟨String.toByteArray_inj.mp ?_, rfl⟩
  exact ByteArray.ext (Array.toList_inj.mp hbytes)

theorem const_int (n : Int) :
    const (.int n) = (if n < 0 then 'N' else 'i') :: digits n.natAbs := by
  by_cases h : n < 0 <;> simp [const, h]

theorem const_append {c d : Const} (hc : c.isPlain = true) (hd : d.isPlain = true) (hr : Clear r)
    (hs : Clear s) (h : const c ++ r = const d ++ s) : c = d ∧ r = s := by
  have hplain {c : Const} (hc : c.isPlain = true) : c.plain = c := of_decide_eq_true hc
  cases c <;> cases d
  case int.int m n =>
    rw [const_int, const_int] at h
    obtain ⟨hsign, h⟩ := List.cons.inj h
    obtain ⟨habs, rfl⟩ := digits_append hr hs h
    refine ⟨congrArg Const.int ?_, rfl⟩
    split at hsign <;> split at hsign <;> first | omega | cases hsign
  case str.str t u =>
    obtain ⟨rfl, rfl⟩ := text_append (List.cons.inj h).2
    exact ⟨rfl, rfl⟩
  case null.null => exact ⟨rfl, (List.cons.inj h).2⟩
  case standIn.standIn p q =>
    obtain rfl : default = p := Const.standIn.inj (hplain hc)
    obtain rfl : default = q := Const.standIn.inj (hplain hd)
    exact ⟨rfl, (List.cons.inj h).2⟩
  -- Either one is not plain, or they begin differently.
  all_goals
    first
    | cases hplain hc; done
    | cases hplain hd; done
    | rw [const_int] at h
      obtain ⟨hn, -⟩ := List.cons.inj h
      split at hn <;> cases hn
    | cases (List.cons.inj h).1

/-! ## Names -/

/-- Names of symbols that can be told apart, from each other and from names of instances. -/
structure Proper (names : SymbolId → String) : Prop where
  injective : Function.Injective names
  clear (s : SymbolId) : Clear (names s).toList
  notMangled (s : SymbolId) : ¬"__T".toList <+: (names s).toList

variable {names : SymbolId → String}

theorem templateName_clear (H : Proper names) (r : TemplateRef) : Clear (templateName names r) := by
  cases r with
  | symbol s => exact H.clear s
  | param => nofun

theorem templateName_inj (H : Proper names) {r q : TemplateRef} (hr : r.isPlain names = true)
    (hq : q.isPlain names = true) (h : templateName names r = templateName names q) : r = q := by
  have hplain {r : TemplateRef} (hr : r.isPlain names = true) : r.plain names = r :=
    of_decide_eq_true hr
  cases r with
  | symbol s =>
    cases q with
    | symbol t =>
      rw [H.injective (String.toList_inj.mp h)]
    | param =>
      have hs := hplain hr
      rw [TemplateRef.plain, if_pos (String.toList_eq_nil_iff.mp h)] at hs
      cases hs
  | param =>
    cases q with
    | symbol t =>
      have ht := hplain hq
      rw [TemplateRef.plain, if_pos (String.toList_eq_nil_iff.mp h.symm)] at ht
      cases ht
    | param => rw [← hplain hr, ← hplain hq, TemplateRef.plain, TemplateRef.plain]

theorem dim_append {d e : Dim} (hd : d.isPlain = true) (he : e.isPlain = true) (hr : Clear r)
    (hs : Clear s) (h : dim d ++ r = dim e ++ s) : d = e ∧ r = s := by
  have hplain {d : Dim} (hd : d.isPlain = true) : d.plain = d := of_decide_eq_true hd
  have hmark {n : UInt64} {r s : List Char} (hr : Clear r) : digits n.toNat ++ r ≠ '?' :: s := by
    intro h
    have := takeWhile_digits n.toNat hr
    rw [h] at this
    exact Nat.toDigits_ne_nil this.symm
  cases d with
  | known m =>
    cases e with
    | known n =>
      obtain ⟨hn, rfl⟩ := digits_append hr hs h
      exact ⟨congrArg Dim.known (UInt64.toNat_inj.mp hn), rfl⟩
    | param | standIn => exact absurd h (hmark hr)
  | param i =>
    cases e with
    | known n => exact absurd h.symm (hmark hs)
    | param j =>
      rw [← hplain hd, ← hplain he]
      exact ⟨rfl, (List.cons.inj h).2⟩
    | standIn => cases hplain he
  | standIn => cases hplain hd

/-! ## Types and arguments -/

theorem code_isDigit (b : BasicTy) : b.code.isDigit = false := by cases b <;> decide

/-- The letters that types begin with, those of basic types apart. -/
def marks : List Char := ['S', 'x', 'P', 'A', 'G', '?']

theorem code_ne {b : BasicTy} {c : Char} (hc : c ∈ marks) : b.code ≠ c := by
  rintro rfl
  revert hc
  cases b <;> decide

theorem ty_clear (t : Ty) : Clear (ty names t ++ r) := by
  cases t with
  | basic b => exact .cons (code_isDigit b)
  | _ => exact .cons rfl

theorem const_clear (c : Const) : Clear (const c ++ r) := by
  cases c with
  | int n =>
    rw [const_int]
    split <;> exact .cons rfl
  | _ => exact .cons rfl

theorem args_clear {as : List Arg} (h : Arg.arePlain names as = true) :
    Clear (args names as ++ 'Z' :: r) := by
  cases as with
  | nil => exact .cons rfl
  | cons a as =>
    cases a with
    | tuple => cases (Bool.and_eq_true_iff.mp h).1
    | _ => exact .cons rfl

theorem wrap_inj {n n' : List Char} {as bs : List Arg} (hn : Clear n)
    (hn' : Clear n') (has : Arg.arePlain names as = true) (hbs : Arg.arePlain names bs = true)
    (h : wrap n (args names as) = wrap n' (args names bs)) :
    n = n' ∧ args names as ++ ['Z'] = args names bs ++ ['Z'] :=
  counted_append (hn.append (args_clear has)) (hn'.append (args_clear hbs))
    (List.cons.inj (List.cons.inj (List.cons.inj h).2).2).2

theorem counted_wrap_ne (H : Proper names) {x : SymbolId} {n as : List Char}
    (hr : Clear r) : counted (names x).toList ++ r ≠ counted (wrap n as) ++ s := by
  intro h
  obtain ⟨h, -⟩ := counted_append ((H.clear x).append hr) (.cons rfl) h
  exact H.notMangled x (h ▸ ⟨_, rfl⟩)

theorem symbol_append (H : Proper names) {x y : SymbolId} (hr : Clear r) (hs : Clear s)
    (h : counted (names x).toList ++ r = counted (names y).toList ++ s) : x = y ∧ r = s := by
  obtain ⟨hxy, rfl⟩ := counted_append ((H.clear x).append hr) ((H.clear y).append hs) h
  exact ⟨H.injective (String.toList_inj.mp hxy), rfl⟩

/-- A plain type is known from its entry, and so are plain arguments. -/
theorem append_inj (H : Proper names) :
    (∀ t : Ty, t.isPlain names = true → ∀ u r s, u.isPlain names = true → Clear r → Clear s →
      ty names t ++ r = ty names u ++ s → t = u ∧ r = s) ∧
    (∀ a : Arg, a.isPlain names = true → ∀ b r s, b.isPlain names = true → Clear r → Clear s →
      arg names a ++ r = arg names b ++ s → a = b ∧ r = s) ∧
    ∀ as : List Arg, Arg.arePlain names as = true → ∀ bs r s, Arg.arePlain names bs = true →
      args names as ++ 'Z' :: r = args names bs ++ 'Z' :: s → as = bs ∧ r = s := by
  apply Ty.induct
  case basic =>
    intro b _ u r s hu hr hs h
    cases u with
    | basic c =>
      obtain ⟨hc, rfl⟩ := List.cons.inj h
      exact ⟨congrArg Ty.basic (BasicTy.code_injective hc), rfl⟩
    | _ => exact absurd (List.cons.inj h).1 (code_ne (by decide))
  case named =>
    intro x _ u r s hu hr hs h
    cases u with
    | named y =>
      obtain ⟨rfl, rfl⟩ := symbol_append H hr hs (List.cons.inj h).2
      exact ⟨rfl, rfl⟩
    | inst q bs => exact absurd (List.cons.inj h).2 (counted_wrap_ne H hr)
    | basic c => exact absurd (List.cons.inj h).1.symm (code_ne (by decide))
    | _ => cases (List.cons.inj h).1
  case const | ptr | array =>
    intro t ih ht u r s hu hr hs h
    cases u
    all_goals
      first
      | rename_i u
        obtain ⟨rfl, rfl⟩ := ih ht u r s hu hr hs (List.cons.inj h).2
        exact ⟨rfl, rfl⟩
      | exact absurd (List.cons.inj h).1.symm (code_ne (by decide))
      | cases (List.cons.inj h).1
  case staticArray =>
    intro t d ih ht u r s hu hr hs h
    obtain ⟨ht, hd⟩ := Bool.and_eq_true_iff.mp ht
    cases u with
    | staticArray u e =>
      obtain ⟨hu', he⟩ := Bool.and_eq_true_iff.mp hu
      have htail : dim d ++ ty names t ++ r = dim e ++ ty names u ++ s := (List.cons.inj h).2
      rw [List.append_assoc, List.append_assoc] at htail
      obtain ⟨rfl, h'⟩ := dim_append hd he (ty_clear t) (ty_clear u) htail
      obtain ⟨rfl, rfl⟩ := ih ht u r s hu' hr hs h'
      exact ⟨rfl, rfl⟩
    | basic c => exact absurd (List.cons.inj h).1.symm (code_ne (by decide))
    | _ => cases (List.cons.inj h).1
  case inst =>
    intro q as ih ht u r s hu hr hs h
    obtain ⟨hq, has⟩ := Bool.and_eq_true_iff.mp ht
    cases u with
    | inst q' bs =>
      obtain ⟨hq', hbs⟩ := Bool.and_eq_true_iff.mp hu
      obtain ⟨hw, rfl⟩ := counted_append (.cons rfl) (.cons rfl) (List.cons.inj h).2
      obtain ⟨hn, hargs⟩ := wrap_inj (templateName_clear H q) (templateName_clear H q') has hbs hw
      obtain rfl := templateName_inj H hq hq' hn
      obtain ⟨rfl, -⟩ := ih has bs [] [] hbs hargs
      exact ⟨rfl, rfl⟩
    | named y => exact absurd (List.cons.inj h).2.symm (counted_wrap_ne H hs)
    | basic c => exact absurd (List.cons.inj h).1.symm (code_ne (by decide))
    | _ => cases (List.cons.inj h).1
  case param | standIn =>
    intro _ ht
    cases ht
  case error =>
    intro _ u r s hu hr hs h
    cases u with
    | error => exact ⟨rfl, (List.cons.inj h).2⟩
    | param | standIn => cases hu
    | basic c => exact absurd (List.cons.inj h).1.symm (code_ne (by decide))
    | _ => cases (List.cons.inj h).1
  case type =>
    intro t ih ha b r s hb hr hs h
    cases b with
    | type u =>
      obtain ⟨rfl, rfl⟩ := ih ha u r s hb hr hs (List.cons.inj h).2
      exact ⟨rfl, rfl⟩
    | tuple => cases hb
    | _ => cases (List.cons.inj h).1
  case value =>
    intro t c ih ha b r s hb hr hs h
    obtain ⟨ht, hc⟩ := Bool.and_eq_true_iff.mp ha
    cases b with
    | value u d =>
      obtain ⟨hu, hd⟩ := Bool.and_eq_true_iff.mp hb
      have htail : ty names t ++ const c ++ r = ty names u ++ const d ++ s := (List.cons.inj h).2
      rw [List.append_assoc, List.append_assoc] at htail
      obtain ⟨rfl, h'⟩ := ih ht u _ _ hu (const_clear c) (const_clear d) htail
      obtain ⟨rfl, rfl⟩ := const_append hc hd hr hs h'
      exact ⟨rfl, rfl⟩
    | tuple => cases hb
    | _ => cases (List.cons.inj h).1
  case symbol =>
    intro x _ b r s hb hr hs h
    cases b with
    | symbol y =>
      obtain ⟨rfl, rfl⟩ := symbol_append H hr hs (List.cons.inj h).2
      exact ⟨rfl, rfl⟩
    | tuple => cases hb
    | _ => cases (List.cons.inj h).1
  case tuple =>
    intro elems _ ha
    cases ha
  case nil =>
    intro _ bs r s hbs h
    cases bs with
    | nil => exact ⟨rfl, (List.cons.inj h).2⟩
    | cons b bs =>
      cases b with
      | tuple => cases (Bool.and_eq_true_iff.mp hbs).1
      | _ => cases (List.cons.inj h).1
  case cons =>
    intro a as iha ihas ha bs r s hbs h
    obtain ⟨ha, has⟩ := Bool.and_eq_true_iff.mp ha
    cases bs with
    | nil =>
      cases a with
      | tuple => cases ha
      | _ => cases (List.cons.inj h).1
    | cons b bs =>
      obtain ⟨hb, hbs'⟩ := Bool.and_eq_true_iff.mp hbs
      rw [args, args, List.append_assoc, List.append_assoc] at h
      obtain ⟨rfl, h'⟩ := iha ha b _ _ hb (args_clear has) (args_clear hbs') h
      obtain ⟨rfl, rfl⟩ := ihas has bs r s hbs' h'
      exact ⟨rfl, rfl⟩

/-- Names agree exactly if the names of the templates and the plain arguments do. -/
theorem mangle_eq_iff (H : Proper names) {n m : String} {as bs : List Arg} (hn : Clear n.toList)
    (hm : Clear m.toList) : mangle names n as = mangle names m bs ↔
      n = m ∧ Arg.plainList names as = Arg.plainList names bs := by
  have hplain : ∀ as, Arg.arePlain names (Arg.plainList names as) = true := isPlain_plain.2.2
  have hargs : ∀ as, args names (Arg.plainList names as) = args names as := args_plain.2.2
  rw [mangle, mangle, ← hargs as, ← hargs bs]
  constructor
  · intro h
    obtain ⟨hnm, h⟩ := wrap_inj hn hm (hplain as) (hplain bs) (String.ofList_injective h)
    exact ⟨String.toList_inj.mp hnm, ((append_inj H).2.2 _ (hplain as) _ [] [] (hplain bs) h).1⟩
  · rintro ⟨rfl, h⟩
    rw [h]

/-- A name that begins with a digit runs into the length before it. -/
example : mangle names "1" [.type .int, .type .int, .type .int, .type .int, .type (.array .int)] =
    mangle names "TiTiTiTiTAi" [] := rfl

end Templates.Mangle
