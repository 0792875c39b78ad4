import Mathlib

/-!
# Hash chains that are retired and replaced

A log is a succession of hash chains, each starting with a link that names the chain it retires and counts all
entries so far. The count tells whether a link extends a retained prefix.
-/

namespace UniMem.Library.RotatingLog

variable {α δ : Type}

section Chain

variable (At : α → ℕ → Prop) (Names : α → δ → Prop) (digest : α → δ)

/-- The entries stand at consecutive indices, each with the digest of the one before. -/
def Linked : ℕ → δ → List α → Prop
  | _, _, [] => True
  | index, previous, entry :: rest =>
    At entry index ∧ Names entry previous ∧ Linked (index + 1) (digest entry) rest

/-- The digest of the last entry, or `previous` before the first one. -/
def tipOf (previous : δ) (chain : List α) : δ := chain.getLast?.elim previous digest

variable {At Names digest}

theorem tipOf_concat (previous : δ) (chain : List α) (entry : α) :
    tipOf digest previous (chain ++ [entry]) = digest entry := by
  rw [tipOf, List.getLast?_concat]
  rfl

theorem tipOf_cons (previous : δ) (entry : α) (rest : List α) :
    tipOf digest previous (entry :: rest) = tipOf digest (digest entry) rest := by
  cases rest with
  | nil => rfl
  | cons next rest =>
    rw [tipOf, tipOf, List.getLast?_cons_cons, List.getLast?_eq_some_getLast (List.cons_ne_nil _ _)]
    rfl

variable {previous : δ} {first second : List α} {last : α}

theorem linked_append {index : ℕ} :
    Linked At Names digest index previous (first ++ second) ↔ Linked At Names digest index previous first ∧
      Linked At Names digest (index + first.length) (tipOf digest previous first) second := by
  induction first generalizing index previous with
  | nil => simp [Linked, tipOf]
  | cons entry first ih =>
    rw [List.cons_append, Linked, ih, Linked, tipOf_cons, List.length_cons, and_assoc, and_assoc,
      Nat.add_assoc, Nat.add_comm 1]

theorem linked_concat {index : ℕ} {chain : List α} {entry : α} :
    Linked At Names digest index previous (chain ++ [entry]) ↔
      Linked At Names digest index previous chain ∧ At entry (index + chain.length) ∧
        Names entry (tipOf digest previous chain) := by
  rw [linked_append, Linked, Linked, and_true]

variable {known : Set α} (hAt : ∀ entry i j, At entry i → At entry j → i = j)
  (hNames : ∀ entry d e, Names entry d → Names entry e → d = e)
  (hinj : Set.InjOn digest known)

include hAt hNames hinj

theorem Linked.commit (hfirst : Linked At Names digest 0 previous (first ++ [last]))
    (hsecond : Linked At Names digest 0 previous (second ++ [last])) (hknown : ∀ entry ∈ first, entry ∈ known)
    (hknown' : ∀ entry ∈ second, entry ∈ known) :
    first = second := by
  induction first using List.reverseRecOn generalizing second last with
  | nil =>
    have hindex := hAt last _ _ (linked_concat.mp hfirst).2.1 (linked_concat.mp hsecond).2.1
    rw [Nat.zero_add, Nat.zero_add, List.length_nil] at hindex
    exact (List.length_eq_zero_iff.mp hindex.symm).symm
  | append_singleton first before ih =>
    obtain ⟨hrest, hat, hnames⟩ := linked_concat.mp hfirst
    obtain ⟨hrest', hat', hnames'⟩ := linked_concat.mp hsecond
    have hlength := hAt last _ _ hat hat'
    rcases List.eq_nil_or_concat second with rfl | ⟨second, before', rfl⟩
    · simp at hlength
    · rw [List.concat_eq_append] at *
      have hdigest := hNames last _ _ hnames hnames'
      rw [tipOf_concat, tipOf_concat] at hdigest
      have hbefore := hinj (hknown before (by simp)) (hknown' before' (by simp)) hdigest
      subst hbefore
      rw [ih hrest hrest' (fun entry hentry ↦ hknown entry (by simp [hentry]))
        (fun entry hentry ↦ hknown' entry (by simp [hentry]))]

theorem Linked.isPrefix_of_mem (hfirst : Linked At Names digest 0 previous (first ++ [last]))
    (hsecond : Linked At Names digest 0 previous second) (hmem : last ∈ second)
    (hknown : ∀ entry ∈ first, entry ∈ known) (hknown' : ∀ entry ∈ second, entry ∈ known) :
    first ++ [last] <+: second := by
  obtain ⟨before, after, rfl⟩ := List.append_of_mem hmem
  rw [List.append_cons] at hsecond
  have hbefore := (linked_append.mp hsecond).1
  have heq := hfirst.commit hAt hNames hinj hbefore hknown
    fun entry hentry ↦ hknown' entry (by simp [hentry])
  exact ⟨after, by rw [heq, ← List.append_cons]⟩

end Chain

/-- A chain has `retained` as a prefix, or starts with a link that retired such a chain. -/
inductive Extends (Retires : α → List α → Prop) (retained : List α) : List α → Prop
  | keeps {chain : List α} (h : retained <+: chain) : Extends Retires retained chain
  | rotated {link : α} {rest old : List α} (hretires : Retires link old)
      (hold : Extends Retires retained old) : Extends Retires retained (link :: rest)

/-- The count of the link that a chain starts with, zero for a chain without one. -/
def ownCount (count : α → Option ℤ) (chain : List α) : ℤ := (chain.head?.bind count).getD 0

theorem ownCount_cons (count : α → Option ℤ) (entry : α) (rest : List α) :
    ownCount count (entry :: rest) = (count entry).getD 0 := rfl

variable {chain retained : List α}

theorem ownCount_of_isPrefix (count : α → Option ℤ) (hne : retained ≠ []) (h : retained <+: chain) :
    ownCount count retained = ownCount count chain := by
  obtain ⟨rest, rfl⟩ := h
  cases retained with
  | nil => exact absurd rfl hne
  | cons entry retained => rfl

/-- The chains of a log, newest first. -/
inductive Succession (Retires : α → List α → Prop) (count : α → Option ℤ) :
    List (List α) → Prop
  | first {chain : List α} (h : ∀ entry ∈ chain.head?, count entry = none) :
      Succession Retires count [chain]
  | next {link : α} {rest old : List α} {older : List (List α)}
      (hold : Succession Retires count (old :: older)) (hretires : Retires link old)
      (hcount : count link = some (old.length + ownCount count old)) :
      Succession Retires count ((link :: rest) :: old :: older)

namespace Succession

variable {Retires : α → List α → Prop} {count : α → Option ℤ}

variable {chains older : List (List α)} {link : α} {rest member : List α} {n : ℤ}

theorem mono {Retires' : α → List α → Prop} (himp : ∀ link old, Retires link old → Retires' link old)
    (h : Succession Retires count chains) :
    Succession Retires' count chains := by
  induction h with
  | first hnone => exact .first hnone
  | next hold hretires hcount ih => exact .next ih (himp _ _ hretires) hcount

section

variable (h : Succession Retires count (chain :: older))
include h

theorem concat {entry : α}
    (hentry : chain = [] → count entry = none) :
    Succession Retires count ((chain ++ [entry]) :: older) := by
  cases h with
  | first hnone =>
    refine .first ?_
    cases chain with
    | nil => simpa using hentry rfl
    | cons start chain => exact hnone
  | next hold hretires hcount => exact .next hold hretires hcount

theorem count_le (hmem : link :: rest ∈ chain :: older)
    (hn : count link = some n) :
    n ≤ ownCount count chain := by
  generalize hchains : chain :: older = chains at h
  induction h generalizing chain older with
  | @first start hnone =>
    obtain ⟨rfl, rfl⟩ := List.cons.inj hchains
    rw [List.mem_singleton] at hmem
    subst hmem
    rw [hnone link rfl] at hn
    cases hn
  | @next newer tail old older' hold hretires hcount ih =>
    obtain ⟨rfl, rfl⟩ := List.cons.inj hchains
    rcases List.mem_cons.mp hmem with heq | hmem
    · obtain ⟨rfl, rfl⟩ := List.cons.inj heq
      rw [ownCount_cons, hn, Option.getD_some]
    · have hle := ih hmem rfl
      rw [ownCount_cons, hcount, Option.getD_some]
      exact hle.trans (le_add_of_nonneg_left (Int.natCast_nonneg _))

theorem extends_newest (hmem : member ∈ chain :: older)
    (hextends : retained <+: member) :
    Extends Retires retained chain := by
  generalize hchains : chain :: older = chains at h
  induction h generalizing chain older with
  | @first start hnone =>
    obtain ⟨rfl, rfl⟩ := List.cons.inj hchains
    rw [List.mem_singleton] at hmem
    exact .keeps (hmem ▸ hextends)
  | @next link tail old older' hold hretires hcount ih =>
    obtain ⟨rfl, rfl⟩ := List.cons.inj hchains
    rcases List.mem_cons.mp hmem with rfl | hmem
    · exact .keeps hextends
    · exact .rotated hretires (ih hmem rfl)

end

theorem extends_of_count (h : Succession Retires count chains) (hne : retained ≠ []) (hmember : member ∈ chains)
    (hextends : retained <+: member) (hlink : link :: rest ∈ chains) (hn : count link = some n)
    (hle : retained.length + ownCount count retained ≤ n) (tail : List α) :
    Extends Retires retained (link :: tail) := by
  have hpos : (0 : ℤ) < retained.length := by
    exact_mod_cast List.length_pos_iff.mpr hne
  rw [ownCount_of_isPrefix count hne hextends] at hle
  induction h with
  | @first start hnone =>
    rw [List.mem_singleton] at hlink
    subst hlink
    rw [hnone link rfl] at hn
    cases hn
  | @next newest tail' old older hold hretires hcount ih =>
    rcases List.mem_cons.mp hlink with heq | hlink
    · obtain ⟨rfl, rfl⟩ := List.cons.inj heq
      rcases List.mem_cons.mp hmember with rfl | hmember
      · -- The link would have to count its own chain.
        rw [ownCount_cons, hn, Option.getD_some] at hle
        linarith
      · exact .rotated hretires (hold.extends_newest hmember hextends)
    · rcases List.mem_cons.mp hmember with rfl | hmember
      · -- The link is older than the chain that holds the prefix.
        have hold_le := hold.count_le hlink hn
        have holdpos : (0 : ℤ) ≤ old.length := Int.natCast_nonneg _
        rw [ownCount_cons, hcount, Option.getD_some] at hle
        linarith
      · exact ih hmember hlink

end Succession

end UniMem.Library.RotatingLog
