import Kubespray.Library.Fallible
import Kubespray.Library.OrderedDict
import Mathlib.Logic.Function.Basic

/-!
# Copying from a Primary Store

Each host has a store of values under keys, and one host, the primary, hands copies to
the others: `replicate` copies to each of some hosts the keys wanted for it, and fails
when the primary lacks one.

What a sequence of such rounds has done to the stores is the predicate `Copied`: on the
pairs of a host and a key that some round copied, the host has the primary's value, and
elsewhere nothing changed. No round changes the primary.

## Main results

* `replicate_copied`: one completed round.
* `Copied.trans`: rounds in sequence.
* `Copied.at_primary`: the primary.
-/

universe u v

namespace Replication

open OrderedDict Fallible

variable {H K V : Type u} {ε : Type v} [DecidableEq K]

/-- Copy keys from one store to another. -/
def copyKeys (fail : ε) (src : OrderedDict K V) (keys : List K) (dst : OrderedDict K V) :
    Except ε (OrderedDict K V) :=
  keys.foldlM
    (fun d key =>
      match src.get? key with
      | some value => .ok (d.set key value)
      | none => .error fail)
    dst

/-- The primary's values were copied under certain keys, and nothing else changed. -/
structure Copied (primary : H) (P : H → K → Prop) (stores stores' : H → OrderedDict K V) :
    Prop where
  copied : ∀ h key, P h key → (stores' h).get? key = (stores primary).get? key
  kept : ∀ h key, ¬ P h key → (stores' h).get? key = (stores h).get? key

variable {primary : H} {P Q : H → K → Prop} {stores stores₁ stores₂ : H → OrderedDict K V}

/-- **The primary is not changed.** -/
theorem Copied.at_primary (h : Copied primary P stores stores₁) (key : K) :
    (stores₁ primary).get? key = (stores primary).get? key := by
  by_cases hp : P primary key
  · exact h.copied primary key hp
  · exact h.kept primary key hp

/-- **Rounds in sequence.** -/
theorem Copied.trans (h₁ : Copied primary P stores stores₁)
    (h₂ : Copied primary Q stores₁ stores₂) :
    Copied primary (fun h key => P h key ∨ Q h key) stores stores₂ where
  copied h key hpq := by
    by_cases hq : Q h key
    · rw [h₂.copied h key hq, h₁.at_primary]
    · rw [h₂.kept h key hq, h₁.copied h key (hpq.resolve_right hq)]
  kept h key hpq := by
    rw [not_or] at hpq
    rw [h₂.kept h key hpq.2, h₁.kept h key hpq.1]

/-- What a completed copy does. -/
theorem copyKeys_eq_ok {fail : ε} {src dst dst' : OrderedDict K V} {keys : List K}
    (h : copyKeys fail src keys dst = .ok dst') (key : K) :
    dst'.get? key = if key ∈ keys then src.get? key else dst.get? key := by
  rw [copyKeys] at h
  induction keys generalizing dst with
  | nil =>
      cases h
      rfl
  | cons k keys ih =>
      obtain ⟨d, hd, h⟩ := foldlM_cons_eq_ok_iff.mp h
      rw [ih h]
      cases hsrc : src.get? k with
      | none =>
          rw [hsrc] at hd
          cases hd
      | some value =>
          rw [hsrc] at hd
          cases hd
          by_cases hmem : key ∈ keys
          · rw [if_pos hmem, if_pos (List.mem_cons_of_mem k hmem)]
          · rw [if_neg hmem, get?_set]
            by_cases hkey : key = k
            · rw [if_pos hkey, if_pos (by rw [hkey]; exact List.mem_cons_self), hkey, hsrc]
            · rw [if_neg hkey, if_neg (by simp [hkey, hmem])]

variable [DecidableEq H]

/-- Copy to each of some hosts the keys wanted for it. -/
def replicate (fail : ε) (primary : H) (wanted : H → List K) (hosts : List H)
    (stores : H → OrderedDict K V) : Except ε (H → OrderedDict K V) :=
  hosts.foldlM
    (fun stores h => do
      let store ← copyKeys fail (stores primary) (wanted h) (stores h)
      return Function.update stores h store)
    stores

/-- **One round.** -/
theorem replicate_copied {fail : ε} {wanted : H → List K} {hosts : List H}
    {stores' : H → OrderedDict K V} (h : replicate fail primary wanted hosts stores = .ok stores') :
    Copied primary (fun h key => h ∈ hosts ∧ key ∈ wanted h) stores stores' := by
  rw [replicate] at h
  induction hosts generalizing stores with
  | nil =>
      cases h
      exact ⟨fun _ _ hmem => absurd hmem.1 List.not_mem_nil, fun _ _ _ => rfl⟩
  | cons host hosts ih =>
      obtain ⟨stores₁, hstep, h⟩ := foldlM_cons_eq_ok_iff.mp h
      obtain ⟨store, hcopy, hstep⟩ := ok_of_bind hstep
      cases hstep
      have hone : Copied primary (fun h key => h = host ∧ key ∈ wanted h) stores
          (Function.update stores host store) := by
        refine ⟨?_, fun other key hno => ?_⟩
        · rintro other key ⟨rfl, hkey⟩
          rw [Function.update_self, copyKeys_eq_ok hcopy, if_pos hkey]
        · by_cases hother : other = host
          · subst hother
            rw [Function.update_self, copyKeys_eq_ok hcopy, if_neg fun hkey => hno ⟨rfl, hkey⟩]
          · rw [Function.update_of_ne hother]
      have hall := hone.trans (ih h)
      refine ⟨fun other key hmem => hall.copied other key ?_,
        fun other key hno => hall.kept other key fun hmem => hno ?_⟩
      · exact (List.mem_cons.mp hmem.1).imp (fun heq => ⟨heq, hmem.2⟩) fun hin => ⟨hin, hmem.2⟩
      · rcases hmem with ⟨rfl, hkey⟩ | ⟨hin, hkey⟩
        · exact ⟨List.mem_cons_self, hkey⟩
        · exact ⟨List.mem_cons_of_mem host hin, hkey⟩

end Replication
