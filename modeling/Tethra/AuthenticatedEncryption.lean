import Mathlib.Tactic

set_option autoImplicit false

/-!
# Authenticated encryption with associated data

A cipher as its two functions, and the idealisations protocol arguments rest on: a sealed
message opens to itself, it opens under no other key and no other associated data, and
what opens under a key was sealed by someone who holds it.
-/
namespace Tethra.AuthenticatedEncryption

abbrev Bytes := List UInt8

/-- A byte string of a fixed length. -/
abbrev Block (n : ℕ) := { b : Bytes // b.length = n }

variable {K : Type}

structure Aead (K : Type) where
  encrypt : K → Bytes → Bytes → Bytes → Option Bytes
  decrypt : K → Bytes → Bytes → Bytes → Option Bytes

namespace Aead

/-- Opening a sealed message with the same nonce and associated data returns it. -/
def Correct (c : Aead K) : Prop :=
  ∀ k nonce message aad ciphertext, c.encrypt k nonce message aad = some ciphertext →
    c.decrypt k nonce ciphertext aad = some message

/-- A sealed message opens under the key and associated data it was sealed with only. -/
def Committing (c : Aead K) : Prop :=
  ∀ k k' nonce message aad aad' ciphertext opened,
    c.encrypt k nonce message aad = some ciphertext →
    c.decrypt k' nonce ciphertext aad' = some opened → k' = k ∧ aad' = aad

/-- What opens is what sealing the opened message gives. -/
def Canonical (c : Aead K) : Prop :=
  ∀ k nonce message aad ciphertext, c.decrypt k nonce ciphertext aad = some message →
    c.encrypt k nonce message aad = some ciphertext

/-- One message sealed by a holder of the key. -/
structure Sealing (K : Type) where
  key : K
  nonce : Bytes
  message : Bytes
  aad : Bytes
  ciphertext : Bytes
  deriving DecidableEq

/-- Whatever opens under `k` is on record as sealed under `k`, with the same nonce and
associated data and the message it opens to. -/
def Unforgeable (c : Aead K) (k : K) (record : Sealing K → Prop) : Prop :=
  ∀ nonce ciphertext aad message, c.decrypt k nonce ciphertext aad = some message →
    record ⟨k, nonce, message, aad, ciphertext⟩

/-- What opens from a sealed ciphertext is the sealed message. -/
theorem opened_eq {c : Aead K} (hc : c.Correct) (hk : c.Committing)
    {k k' : K} {nonce message aad aad' ciphertext opened : Bytes}
    (h : c.encrypt k nonce message aad = some ciphertext)
    (ho : c.decrypt k' nonce ciphertext aad' = some opened) :
    k' = k ∧ aad' = aad ∧ opened = message := by
  obtain ⟨rfl, rfl⟩ := hk k k' nonce message aad aad' ciphertext opened h ho
  exact ⟨rfl, rfl, Option.some_inj.1 (ho.symm.trans (hc _ _ _ _ _ h))⟩

/-- A ciphertext opens under one key and to one message. -/
theorem opens_unique {c : Aead K} (hc : c.Correct) (hk : c.Committing) (hs : c.Canonical)
    {k k' : K} {nonce message message' aad ciphertext : Bytes}
    (h : c.decrypt k nonce ciphertext aad = some message)
    (h' : c.decrypt k' nonce ciphertext aad = some message') : k' = k ∧ message' = message := by
  obtain ⟨hkey, -, hmessage⟩ := opened_eq hc hk (hs _ _ _ _ _ h) h'
  exact ⟨hkey, hmessage⟩

end Aead

/-! ## A transparent cipher

Key and associated data are written in front of the message. It hides nothing, but it
binds exactly what an ideal cipher binds, and it can be evaluated. -/

def escape : Bytes → Bytes
  | [] => [0]
  | b :: bs => 1 :: b :: escape bs

theorem escape_append_inj {a b m n : Bytes} (h : escape a ++ m = escape b ++ n) :
    a = b ∧ m = n := by
  induction a generalizing b with
  | nil =>
    cases b with
    | nil => simpa [escape] using h
    | cons y ys => simp [escape] at h
  | cons x xs ih =>
    cases b with
    | nil => simp [escape] at h
    | cons y ys =>
      simp only [escape, List.cons_append, List.cons.injEq, true_and] at h
      obtain ⟨hx, hs⟩ := ih h.2
      exact ⟨by rw [h.1, hx], hs⟩

def stripPrefix : Bytes → Bytes → Option Bytes
  | [], m => some m
  | _ :: _, [] => none
  | b :: bs, m :: ms => if b = m then stripPrefix bs ms else none

theorem stripPrefix_eq_some {p c m : Bytes} : stripPrefix p c = some m ↔ c = p ++ m := by
  induction p generalizing c with
  | nil => simp [stripPrefix]
  | cons b bs ih =>
    cases c with
    | nil => simp [stripPrefix]
    | cons x xs =>
      by_cases hb : b = x
      · simp [stripPrefix, hb, ih]
      · simp [stripPrefix, hb, Ne.symm hb]

def transparentLabel {n : ℕ} (k : Block n) (aad : Bytes) : Bytes := k.1 ++ escape aad

def transparent (n : ℕ) : Aead (Block n) where
  encrypt k _ message aad := some (transparentLabel k aad ++ message)
  decrypt k _ ciphertext aad := stripPrefix (transparentLabel k aad) ciphertext

theorem transparent_correct (n : ℕ) : (transparent n).Correct := by
  intro k nonce message aad ciphertext h
  simp only [transparent, Option.some.injEq] at h ⊢
  exact stripPrefix_eq_some.2 h.symm

theorem transparent_committing (n : ℕ) : (transparent n).Committing := by
  intro k k' nonce message aad aad' ciphertext opened h ho
  simp only [transparent, Option.some.injEq] at h
  have he : ciphertext = k'.1 ++ escape aad' ++ opened := stripPrefix_eq_some.1 ho
  rw [← h, transparentLabel, List.append_assoc, List.append_assoc] at he
  have hlen : k.1.length = k'.1.length := k.2.trans k'.2.symm
  obtain ⟨hkey, hrest⟩ := List.append_inj he hlen
  exact ⟨Subtype.ext hkey.symm, (escape_append_inj hrest).1.symm⟩

theorem transparent_canonical (n : ℕ) : (transparent n).Canonical := by
  intro k nonce message aad ciphertext h
  simp only [transparent, Option.some.injEq] at h ⊢
  exact (stripPrefix_eq_some.1 h).symm

/-- The transparent cipher when `log` is all that is ever sealed: nothing else opens. -/
def recorded {n : ℕ} (log : List (Aead.Sealing (Block n))) : Aead (Block n) where
  encrypt k nonce message aad :=
    let ciphertext := transparentLabel k aad ++ message
    if (⟨k, nonce, message, aad, ciphertext⟩ : Aead.Sealing (Block n)) ∈ log then some ciphertext
    else none
  decrypt k nonce ciphertext aad :=
    (stripPrefix (transparentLabel k aad) ciphertext).filter fun message =>
      (⟨k, nonce, message, aad, ciphertext⟩ : Aead.Sealing (Block n)) ∈ log

variable {n : ℕ} {log : List (Aead.Sealing (Block n))}

theorem recorded_decrypt {k : Block n} {nonce ciphertext aad message : Bytes} :
    (recorded log).decrypt k nonce ciphertext aad = some message ↔
      ciphertext = transparentLabel k aad ++ message ∧
        (⟨k, nonce, message, aad, ciphertext⟩ : Aead.Sealing (Block n)) ∈ log := by
  simp [recorded, Option.filter_eq_some_iff, stripPrefix_eq_some]

theorem recorded_encrypt {k : Block n} {nonce ciphertext aad message : Bytes} :
    (recorded log).encrypt k nonce message aad = some ciphertext ↔
      ciphertext = transparentLabel k aad ++ message ∧
        (⟨k, nonce, message, aad, ciphertext⟩ : Aead.Sealing (Block n)) ∈ log := by
  simp only [recorded, Option.ite_none_right_eq_some, Option.some.injEq]
  constructor
  · rintro ⟨hlog, rfl⟩
    exact ⟨rfl, hlog⟩
  · rintro ⟨rfl, hlog⟩
    exact ⟨hlog, rfl⟩

theorem recorded_correct (log : List (Aead.Sealing (Block n))) : (recorded log).Correct := by
  intro k nonce message aad ciphertext h
  rw [recorded_decrypt, ← recorded_encrypt]
  exact h

theorem recorded_unforgeable (k : Block n) (log : List (Aead.Sealing (Block n))) :
    (recorded log).Unforgeable k fun s => s ∈ log := by
  intro nonce ciphertext aad message h
  exact (recorded_decrypt.1 h).2

end Tethra.AuthenticatedEncryption
