import Mathlib
import FoldedHeader.EncodeError

/-!
# Arithmetic in words

A machine counts in words of 64 bits, and its sums, differences and products wrap around. A `Computation` gives what
comes of this, and lists every operation made on the way, so that it can be said of a whole computation that no
operation in it left the range of a word (`Operation.InRange`).

`Gives c x` says both of a computation: its result is `x`, and all of its operations are in range. It is composed along
a computation (`Gives.bind`), and the operations meet it when the same operation on numbers stays below `2 ^ 64`, or at
zero or above (`gives_add`, `gives_sub`, `gives_mul`). Lengths are summed up item by item (`sumFrom`).
-/

namespace FoldedHeader.Word

/-- An operation on two words. -/
inductive Operation
  | add (a b : UInt64)
  | sub (a b : UInt64)
  | mul (a b : UInt64)
  deriving DecidableEq

/-- The operation on the same numbers without wrapping around gives a word. -/
def Operation.InRange : Operation → Prop
  | add a b => a.toNat + b.toNat < 2 ^ 64
  | sub a b => b.toNat ≤ a.toNat
  | mul a b => a.toNat * b.toNat < 2 ^ 64

instance (o : Operation) : Decidable o.InRange :=
  match o with
  | .add a b => inferInstanceAs (Decidable (a.toNat + b.toNat < 2 ^ 64))
  | .sub a b => inferInstanceAs (Decidable (b.toNat ≤ a.toNat))
  | .mul a b => inferInstanceAs (Decidable (a.toNat * b.toNat < 2 ^ 64))

/-- What a computation comes to, and the operations made in it, in order. -/
structure Computation (α : Type) where
  result : Except EncodeError α
  operations : List Operation

variable {α β : Type}

/-- One computation behind the other; an error ends them. -/
instance : Monad Computation where
  pure a := ⟨.ok a, []⟩
  bind c f :=
    match c.result with
    | .ok a => ⟨(f a).result, c.operations ++ (f a).operations⟩
    | .error err => ⟨.error err, c.operations⟩

/-- A result that takes no arithmetic. -/
def lift (x : Except EncodeError α) : Computation α := ⟨x, []⟩

def add (a b : UInt64) : Computation UInt64 := ⟨.ok (a + b), [.add a b]⟩

def sub (a b : UInt64) : Computation UInt64 := ⟨.ok (a - b), [.sub a b]⟩

def mul (a b : UInt64) : Computation UInt64 := ⟨.ok (a * b), [.mul a b]⟩

/-- Add the widths of the items to a word, one behind the other. -/
def sumFrom (width : α → Computation UInt64) (n : UInt64) : List α → Computation UInt64
  | [] => pure n
  | a :: as => do
    let w ← width a
    let m ← add n w
    sumFrom width m as

/-- Add words to a word, one behind the other. -/
def addAll (n : UInt64) (ns : List UInt64) : Computation UInt64 := sumFrom pure n ns

/-- Count the characters of a text. -/
def count (s : Text) : Computation UInt64 := sumFrom (fun _ => pure 1) 0 s

/-! ## In range, with a known result -/

/-- The computation comes to `x`, and no operation in it leaves the range. -/
structure Computation.Gives (c : Computation α) (x : Except EncodeError α) : Prop where
  result_eq : c.result = x
  inRange : ∀ o ∈ c.operations, o.InRange

variable {c : Computation α} {f : α → Computation β} {a : α} {x : Except EncodeError β} {m n : Nat}

theorem gives_lift (x : Except EncodeError α) : (lift x).Gives x := ⟨rfl, nofun⟩

theorem gives_pure (a : α) : (pure a : Computation α).Gives (.ok a) := ⟨rfl, nofun⟩

theorem Computation.Gives.bind (hc : c.Gives (.ok a)) (hf : (f a).Gives x) : (c >>= f).Gives x := by
  have hbind : c >>= f = ⟨(f a).result, c.operations ++ (f a).operations⟩ := by
    simp only [Bind.bind, hc.result_eq]
  rw [hbind]
  refine ⟨hf.result_eq, fun o ho => ?_⟩
  rcases List.mem_append.mp ho with ho | ho
  · exact hc.inRange o ho
  · exact hf.inRange o ho

/-- A computation that comes to a result has passed through one of its first part. -/
theorem Computation.bind_eq_ok {b : β} (h : (c >>= f).result = .ok b) :
    ∃ a, c.result = .ok a ∧ (f a).result = .ok b := by
  simp only [Bind.bind] at h
  split at h
  next a ha => exact ⟨a, ha, h⟩
  · cases h

theorem Computation.Gives.bind_error {err : EncodeError} (hc : c.Gives (.error err)) :
    (c >>= f).Gives (.error err) := by
  have hbind : c >>= f = ⟨.error err, c.operations⟩ := by simp only [Bind.bind, hc.result_eq]
  rw [hbind]
  exact ⟨rfl, hc.inRange⟩

/-! ## Numbers as words -/

theorem toNat_ofNat (h : n < 2 ^ 64) : (UInt64.ofNat n).toNat = n := UInt64.toNat_ofNat_of_lt' h

theorem ofNat_le_iff {max : UInt64} (h : n < 2 ^ 64) : UInt64.ofNat n ≤ max ↔ n ≤ max.toNat := by
  rw [UInt64.le_iff_toNat_le, toNat_ofNat h]

theorem ofNat_le_ofNat_iff (hm : m < 2 ^ 64) (hn : n < 2 ^ 64) : UInt64.ofNat m ≤ UInt64.ofNat n ↔ m ≤ n := by
  rw [ofNat_le_iff hm, toNat_ofNat hn]

theorem gives_add (h : m + n < 2 ^ 64) : (add (.ofNat m) (.ofNat n)).Gives (.ok (.ofNat (m + n))) := by
  refine ⟨by rw [add, UInt64.ofNat_add], fun o ho => ?_⟩
  obtain rfl := List.mem_singleton.mp ho
  rw [Operation.InRange, toNat_ofNat (by omega), toNat_ofNat (by omega)]
  exact h

theorem gives_sub (hm : m < 2 ^ 64) (h : n ≤ m) : (sub (.ofNat m) (.ofNat n)).Gives (.ok (.ofNat (m - n))) := by
  refine ⟨by rw [sub, UInt64.ofNat_sub h], fun o ho => ?_⟩
  obtain rfl := List.mem_singleton.mp ho
  rw [Operation.InRange, toNat_ofNat hm, toNat_ofNat (by omega)]
  exact h

theorem gives_mul (hm : m < 2 ^ 64) (hn : n < 2 ^ 64) (h : m * n < 2 ^ 64) :
    (mul (.ofNat m) (.ofNat n)).Gives (.ok (.ofNat (m * n))) := by
  refine ⟨by rw [mul, UInt64.ofNat_mul], fun o ho => ?_⟩
  obtain rfl := List.mem_singleton.mp ho
  rw [Operation.InRange, toNat_ofNat hm, toNat_ofNat hn]
  exact h

/-! ## Sums -/

/-- If the last of the sums is a word, so are those before it. -/
theorem gives_sumFrom {width : α → Computation UInt64} (number : α → Nat) {as : List α}
    (hw : ∀ a ∈ as, (width a).Gives (.ok (.ofNat (number a)))) (h : n + (as.map number).sum < 2 ^ 64) :
    (sumFrom width (.ofNat n) as).Gives (.ok (.ofNat (n + (as.map number).sum))) := by
  induction as generalizing n with
  | nil => exact gives_pure _
  | cons a as ih =>
    rw [List.map_cons, List.sum_cons, ← Nat.add_assoc] at h ⊢
    exact (hw a List.mem_cons_self).bind <|
      (gives_add (by omega)).bind <| ih (fun b hb => hw b (List.mem_cons_of_mem a hb)) h

theorem sumFrom_map (width : β → Computation UInt64) (g : α → β) (n : UInt64) (as : List α) :
    sumFrom width n (as.map g) = sumFrom (fun a => width (g a)) n as := by
  induction as generalizing n with
  | nil => rfl
  | cons a as ih => simp only [List.map_cons, sumFrom, ih]

theorem gives_addAll (n : Nat) (ns : List Nat) (h : n + ns.sum < 2 ^ 64) :
    (addAll (.ofNat n) (ns.map .ofNat)).Gives (.ok (.ofNat (n + ns.sum))) := by
  rw [← List.map_id ns] at h
  have hs := gives_sumFrom id (fun k _ => gives_pure (UInt64.ofNat k)) h
  rwa [List.map_id, ← sumFrom_map pure] at hs

theorem gives_count {s : Text} (h : s.length < 2 ^ 64) : (count s).Gives (.ok (.ofNat s.length)) := by
  have hsum : 0 + (s.map fun _ => 1).sum = s.length := by
    rw [List.map_const', List.sum_replicate_nat, Nat.mul_one, Nat.zero_add]
  have hs := gives_sumFrom (n := 0) (fun _ : Char => 1) (fun _ _ => gives_pure _) (hsum ▸ h)
  rwa [hsum] at hs

/-- Two characters are counted in two sums. -/
example : (count ['a', 'b']).result = .ok 2 ∧ (count ['a', 'b']).operations = [.add 0 1, .add 1 1] := ⟨rfl, rfl⟩

end FoldedHeader.Word
