import Templates.Ty.Basic

/-!
# Digests

A digest stands for the arguments and the enclosing scope of an instance in a cache. An engine may
use any digest. `Digest.ofKey` writes down every part of the key, each constructor by its own mark
in front of its parts, so that different keys have different digests (`Digest.ofKey_inj`) and never
meet in a bucket (`Service.mem_bucket_ofKey`).
-/

namespace Templates

structure Digest where
  /-- A small number that tells most digests apart at once. -/
  checksum : Nat
  words : List Nat
  deriving DecidableEq, Inhabited, Repr

namespace Digest

def ofWords (w : List Nat) : Digest :=
  ⟨w.foldl (fun n x => (31 * n + x) % 0x1FFFFFFFFFFFFFFF) 0, w⟩

theorem ofWords_inj {w v : List Nat} : ofWords w = ofWords v ↔ w = v :=
  ⟨fun h => congrArg words h, congrArg ofWords⟩

/-! Each function writes its words in front of the words `w`. -/

def placeholder (p : Placeholder) (w : List Nat) : List Nat := p.decl.index :: p.param.index :: w

/-- The characters of a text behind their number. -/
def text (s : String) (w : List Nat) : List Nat :=
  s.toList.length :: (s.toList.map Char.toNat ++ w)

def dim (d : Dim) (w : List Nat) : List Nat :=
  match d with
  | .known n => 0 :: n.toNat :: w
  | .param i => 1 :: i.index :: w
  | .standIn p => 2 :: placeholder p w

def templateRef (r : TemplateRef) (w : List Nat) : List Nat :=
  match r with
  | .symbol s => 0 :: s.index :: w
  | .param i => 1 :: i.index :: w

def const (c : Const) (w : List Nat) : List Nat :=
  match c with
  | .int (.ofNat n) => 0 :: n :: w
  | .int (.negSucc n) => 1 :: n :: w
  | .bool b => 2 :: b.toNat :: w
  | .char c => 3 :: c.toNat :: w
  | .str s => 4 :: text s w
  | .null => 5 :: w
  | .standIn p => 6 :: placeholder p w

mutual

def ty : Ty → List Nat → List Nat
  | .basic b, w => 0 :: b.code.toNat :: w
  | .named s, w => 1 :: s.index :: w
  | .const t, w => 2 :: ty t w
  | .ptr t, w => 3 :: ty t w
  | .array t, w => 4 :: ty t w
  | .staticArray t d, w => 5 :: dim d (ty t w)
  | .inst r as, w => 6 :: templateRef r (args as w)
  | .param i, w => 7 :: i.index :: w
  | .standIn p, w => 8 :: placeholder p w
  | .error, w => 9 :: w

def arg : Arg → List Nat → List Nat
  | .type t, w => 1 :: ty t w
  | .value t c, w => 2 :: const c (ty t w)
  | .symbol s, w => 3 :: s.index :: w
  | .tuple as, w => 4 :: args as w

/-- The arguments in order. A word that begins no argument ends them. -/
def args : List Arg → List Nat → List Nat
  | [], w => 0 :: w
  | a :: as, w => arg a (args as w)

end

/-- The digest that tells the keys of instances apart. -/
def ofKey (as : List Arg) (enclosing : Option ScopeId) : Digest :=
  ofWords (args as (enclosing.elim [] fun s => [s.index]))

/-! ## Different keys have different digests -/

theorem placeholder_inj {p q : Placeholder} {w v : List Nat} :
    placeholder p w = placeholder q v ↔ p = q ∧ w = v := by
  obtain ⟨⟨a⟩, ⟨b⟩⟩ := p
  obtain ⟨⟨c⟩, ⟨d⟩⟩ := q
  simp [placeholder, and_assoc]

theorem text_inj {s t : String} {w v : List Nat} : text s w = text t v ↔ s = t ∧ w = v := by
  constructor
  · intro h
    obtain ⟨hl, h⟩ := List.cons.inj h
    obtain ⟨h, hw⟩ := List.append_inj h (by simpa using hl)
    refine ⟨?_, hw⟩
    rw [← String.toList_inj]
    exact (List.map_inj_right fun a b h => Char.ext (UInt32.toNat_inj.1 h)).1 h
  · rintro ⟨rfl, rfl⟩
    rfl

theorem dim_inj {d e : Dim} {w v : List Nat} : dim d w = dim e v ↔ d = e ∧ w = v := by
  cases d <;> cases e <;> simp [dim, placeholder_inj, UInt64.toNat_inj]
  next i j => obtain ⟨i⟩ := i; obtain ⟨j⟩ := j; simp

theorem templateRef_inj {r q : TemplateRef} {w v : List Nat} :
    templateRef r w = templateRef q v ↔ r = q ∧ w = v := by
  rcases r with ⟨⟨a⟩⟩ | ⟨⟨a⟩⟩ <;> rcases q with ⟨⟨b⟩⟩ | ⟨⟨b⟩⟩ <;> simp [templateRef]

theorem char_toNat_inj {a b : Char} : a.toNat = b.toNat ↔ a = b :=
  ⟨fun h => Char.ext (UInt32.toNat_inj.1 h), fun h => h ▸ rfl⟩

theorem const_inj {c d : Const} {w v : List Nat} : const c w = const d v ↔ c = d ∧ w = v := by
  rcases c with (n | n) | (_ | _) | c | s | _ | p <;>
    rcases d with (m | m) | (_ | _) | d | t | _ | q <;>
      simp [const, placeholder_inj, text_inj, char_toNat_inj, -Int.ofNat_eq_natCast]

theorem code_inj {a b : BasicTy} : a.code.toNat = b.code.toNat ↔ a = b := by
  rw [char_toNat_inj]
  exact ⟨BasicTy.code_injective, fun h => h ▸ rfl⟩

mutual

theorem ty_inj : (t : Ty) → ∀ {u : Ty} {w v : List Nat}, ty t w = ty u v ↔ t = u ∧ w = v
  | .basic a, u, w, v => by cases u <;> simp [ty, code_inj]
  | .named ⟨s⟩, u, w, v => by rcases u with _ | ⟨⟨_⟩⟩ | _ <;> simp [ty]
  | .const t, u, w, v => by cases u <;> simp [ty, ty_inj t]
  | .ptr t, u, w, v => by cases u <;> simp [ty, ty_inj t]
  | .array t, u, w, v => by cases u <;> simp [ty, ty_inj t]
  | .staticArray t d, u, w, v => by
    cases u <;> simp [ty, dim_inj, ty_inj t, and_assoc, and_left_comm]
  | .inst r as, u, w, v => by cases u <;> simp [ty, templateRef_inj, args_inj as, and_assoc]
  | .param ⟨i⟩, u, w, v => by
    cases u <;> simp [ty]
    next j => obtain ⟨j⟩ := j; simp
  | .standIn p, u, w, v => by cases u <;> simp [ty, placeholder_inj]
  | .error, u, w, v => by cases u <;> simp [ty]

theorem arg_inj : (a : Arg) → ∀ {b : Arg} {w v : List Nat}, arg a w = arg b v ↔ a = b ∧ w = v
  | .type t, b, w, v => by cases b <;> simp [arg, ty_inj t]
  | .value t c, b, w, v => by
    cases b <;> simp [arg, const_inj, ty_inj t, and_assoc, and_left_comm]
  | .symbol ⟨s⟩, b, w, v => by
    cases b <;> simp [arg]
    next r => obtain ⟨r⟩ := r; simp
  | .tuple as, b, w, v => by cases b <;> simp [arg, args_inj as]

theorem args_inj : (as : List Arg) → ∀ {bs : List Arg} {w v : List Nat},
    args as w = args bs v ↔ as = bs ∧ w = v
  | [], bs, w, v => by
    cases bs with
    | nil => simp [args]
    | cons b bs => cases b <;> simp [args, arg]
  | a :: as, bs, w, v => by
    cases bs with
    | nil => cases a <;> simp [args, arg]
    | cons b bs => simp [args, arg_inj a, args_inj as, and_assoc]

end

theorem ofKey_inj {as bs : List Arg} {e f : Option ScopeId} :
    ofKey as e = ofKey bs f ↔ as = bs ∧ e = f := by
  rcases e with _ | ⟨⟨e⟩⟩ <;> rcases f with _ | ⟨⟨f⟩⟩ <;> simp [ofKey, ofWords_inj, args_inj]

end Digest
end Templates
