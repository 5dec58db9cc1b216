import Mathlib

/-!
# UInt8 encodings and the shapes that cut them

A word of `n` bytes, least significant first, and encodings of lists and pairs by plain
concatenation. Such an encoding forgets where one part ends and the next begins. `Shaped`
keeps that beside it: among values of one shape the bytes determine the value, and bytes
of the right number are the encoding of a value of any given shape, as long as each is 0
or 1 (some of the parts are flags).
-/

namespace Encoding

/-! ## Words -/

/-- The `n` low bytes of `x`. -/
def word : Nat → Nat → List UInt8
  | 0, _ => []
  | n + 1, x => UInt8.ofNat x :: word n (x / 256)

def ofWord : List UInt8 → Nat
  | [] => 0
  | b :: bytes => b.toNat + 256 * ofWord bytes

@[simp] theorem length_word (n x : Nat) : (word n x).length = n := by
  induction n generalizing x with
  | zero => rfl
  | succ n ih => simp [word, ih]

theorem word_zero (n : Nat) : word n 0 = List.replicate n 0 := by
  induction n with
  | zero => rfl
  | succ n ih => rw [word, Nat.zero_div, ih, List.replicate_succ]; rfl

theorem ofWord_word {n x : Nat} (h : x < 256 ^ n) : ofWord (word n x) = x := by
  induction n generalizing x with
  | zero =>
    have : x = 0 := by omega
    exact this.symm
  | succ n ih =>
    have hdiv : x / 256 < 256 ^ n := by
      rw [Nat.div_lt_iff_lt_mul (by decide), ← Nat.pow_succ]
      exact h
    have hlow : (UInt8.ofNat x).toNat = x % 256 := UInt8.toNat_ofNat'
    rw [word, ofWord, ih hdiv, hlow]
    omega

theorem word_ofWord (bytes : List UInt8) : word bytes.length (ofWord bytes) = bytes := by
  induction bytes with
  | nil => rfl
  | cons b bytes ih =>
    have hb : b.toNat < 256 := b.toNat_lt
    have hhead : UInt8.ofNat (b.toNat + 256 * ofWord bytes) = b := by
      apply UInt8.toNat.inj
      rw [UInt8.toNat_ofNat']
      omega
    have htail : (b.toNat + 256 * ofWord bytes) / 256 = ofWord bytes := by omega
    rw [List.length_cons, word, ofWord, hhead, htail, ih]

theorem ofWord_lt (bytes : List UInt8) : ofWord bytes < 256 ^ bytes.length := by
  induction bytes with
  | nil => exact Nat.one_pos
  | cons b bytes ih =>
    have hb : b.toNat < 256 := b.toNat_lt
    rw [List.length_cons, Nat.pow_succ, ofWord]
    omega

/-! ## Shaped encodings -/

/-- Bytes a flag can have, too. -/
def Bits (bytes : List UInt8) : Prop := ∀ b ∈ bytes, b = 0 ∨ b = 1

structure Shaped (α σ : Type) where
  enc : α → List UInt8
  shape : α → σ
  size : σ → Nat
  length_enc : ∀ a, (enc a).length = size (shape a)
  inj : ∀ a b, shape a = shape b → enc a = enc b → a = b
  onto : ∀ s bytes, bytes.length = size s → Bits bytes → ∃ a, shape a = s ∧ enc a = bytes

namespace Shaped

variable {α β σ τ : Type}

/-- A string of bytes, as it is. -/
def raw : Shaped (List UInt8) Nat where
  enc := id
  shape := List.length
  size := id
  length_enc _ := rfl
  inj _ _ _ h := h
  onto _ bytes h _ := ⟨bytes, h, rfl⟩

/-- One code unit of `n` bytes. -/
def unit (n : Nat) : Shaped (Fin (256 ^ n)) Unit where
  enc c := word n c
  shape _ := ()
  size _ := n
  length_enc c := length_word n c
  inj a b _ h := by
    apply Fin.ext
    rw [← ofWord_word a.isLt, ← ofWord_word b.isLt, h]
  onto s bytes h _ := by
    subst h
    exact ⟨⟨ofWord bytes, ofWord_lt bytes⟩, rfl, word_ofWord bytes⟩

/-- One part after another. -/
def pair (e : Shaped α σ) (f : Shaped β τ) : Shaped (α × β) (σ × τ) where
  enc a := e.enc a.1 ++ f.enc a.2
  shape a := (e.shape a.1, f.shape a.2)
  size s := e.size s.1 + f.size s.2
  length_enc a := by rw [List.length_append, e.length_enc, f.length_enc]
  inj a b hshape henc := by
    obtain ⟨h₁, h₂⟩ := Prod.mk.inj hshape
    have hlength : (e.enc a.1).length = (e.enc b.1).length := by
      rw [e.length_enc, e.length_enc, h₁]
    obtain ⟨he, hf⟩ := List.append_inj henc hlength
    exact Prod.ext (e.inj _ _ h₁ he) (f.inj _ _ h₂ hf)
  onto s bytes h hbits := by
    obtain ⟨a, ha, hea⟩ := e.onto s.1 (bytes.take (e.size s.1)) (by rw [List.length_take]; omega)
      fun b hb => hbits b (List.mem_of_mem_take hb)
    obtain ⟨b, hb, hfb⟩ := f.onto s.2 (bytes.drop (e.size s.1)) (by rw [List.length_drop]; omega)
      fun b hb => hbits b (List.mem_of_mem_drop hb)
    exact ⟨(a, b), by rw [ha, hb], by rw [hea, hfb, List.take_append_drop]⟩

/-- The members of a list, nothing between them. -/
def list (e : Shaped α σ) : Shaped (List α) (List σ) where
  enc := List.flatMap e.enc
  shape := List.map e.shape
  size s := (s.map e.size).sum
  length_enc as := by
    induction as with
    | nil => rfl
    | cons a as ih =>
      rw [List.flatMap_cons, List.length_append, e.length_enc, ih, List.map_cons, List.map_cons,
        List.sum_cons]
  inj as bs hshape henc := by
    induction as generalizing bs with
    | nil =>
      cases bs with
      | nil => rfl
      | cons b bs => cases hshape
    | cons a as ih =>
      cases bs with
      | nil => cases hshape
      | cons b bs =>
        obtain ⟨h₁, h₂⟩ := List.cons.inj hshape
        have hlength : (e.enc a).length = (e.enc b).length := by
          rw [e.length_enc, e.length_enc, h₁]
        obtain ⟨he, hf⟩ := List.append_inj henc hlength
        rw [e.inj _ _ h₁ he, ih bs h₂ hf]
  onto s bytes h hbits := by
    induction s generalizing bytes with
    | nil => exact ⟨[], rfl, (List.eq_nil_of_length_eq_zero h).symm⟩
    | cons s ss ih =>
      rw [List.map_cons, List.sum_cons] at h
      obtain ⟨a, ha, hea⟩ := e.onto s (bytes.take (e.size s)) (by rw [List.length_take]; omega)
        fun b hb => hbits b (List.mem_of_mem_take hb)
      obtain ⟨as, has, heas⟩ := ih (bytes.drop (e.size s)) (by rw [List.length_drop]; omega)
        fun b hb => hbits b (List.mem_of_mem_drop hb)
      exact ⟨a :: as, by rw [List.map_cons, ha, has],
        by rw [List.flatMap_cons, hea, heas, List.take_append_drop]⟩

/-- A string of code units of `n` bytes. -/
def units (n : Nat) : Shaped (List (Fin (256 ^ n))) Nat where
  enc := List.flatMap fun c => word n c.val
  shape := List.length
  size k := k * n
  length_enc a := by
    induction a with
    | nil => exact (Nat.zero_mul n).symm
    | cons c a ih =>
      rw [List.flatMap_cons, List.length_append, ih, length_word, List.length_cons, Nat.succ_mul,
        Nat.add_comm]
  inj a b hshape henc := by
    refine (list (unit n)).inj a b ?_ henc
    show a.map (fun _ => ()) = b.map (fun _ => ())
    rw [List.map_const', List.map_const', hshape]
  onto k bytes h hbits := by
    obtain ⟨a, ha, hea⟩ := (list (unit n)).onto (List.replicate k ()) bytes
      (by rw [h]; show k * n = ((List.replicate k ()).map fun _ => n).sum; simp) hbits
    refine ⟨a, ?_, hea⟩
    have hlength := congrArg List.length ha
    rwa [List.length_replicate, show (list (unit n)).shape a = a.map fun _ => () from rfl,
      List.length_map] at hlength

/-- Values that stand for encoded ones. -/
def via (e : Shaped β σ) (f : α → β) (g : β → α) (gf : ∀ a, g (f a) = a)
    (fg : ∀ b, Bits (e.enc b) → f (g b) = b) : Shaped α σ where
  enc a := e.enc (f a)
  shape a := e.shape (f a)
  size := e.size
  length_enc a := e.length_enc (f a)
  inj a b hshape henc := by
    rw [← gf a, e.inj _ _ hshape henc, gf]
  onto s bytes h hbits := by
    obtain ⟨b, hb, heb⟩ := e.onto s bytes h hbits
    have hfg := fg b (by rw [heb]; exact hbits)
    exact ⟨g b, by rw [hfg, hb], by rw [hfg, heb]⟩

/-- Every shape has a value whose encoding is zeros. -/
theorem zeros (e : Shaped α σ) (s : σ) :
    ∃ a, e.shape a = s ∧ e.enc a = List.replicate (e.size s) 0 :=
  e.onto s _ (List.length_replicate) fun _ hb => .inl (List.eq_of_mem_replicate hb)

end Shaped

end Encoding
