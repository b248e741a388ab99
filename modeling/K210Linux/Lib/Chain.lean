import Mathlib.Data.List.Basic

namespace K210Linux.Lib

variable {α : Type}

/-- Following `next` from `start` visits the nodes of the list in order and then ends. -/
def Chain (next : α → Option α) : Option α → List α → Prop
  | none, [] => True
  | some a, b :: l => a = b ∧ Chain next (next a) l
  | _, _ => False

variable {next next' : α → Option α} {start : Option α} {a : α} {l : List α}

@[simp] theorem chain_nil : Chain next start [] ↔ start = none := by
  cases start <;> simp [Chain]

@[simp] theorem chain_cons : Chain next start (a :: l) ↔ start = some a ∧ Chain next (next a) l := by
  cases start with
  | none => simp [Chain]
  | some b =>
    simp only [Chain, Option.some.injEq]
    constructor <;> (rintro ⟨rfl, rest⟩; exact ⟨rfl, rest⟩)

/-- A chain only depends on the links of its own nodes. -/
theorem Chain.congr (chain : Chain next start l) (same : ∀ a ∈ l, next' a = next a) : Chain next' start l := by
  induction l generalizing start with
  | nil => simpa using chain
  | cons a l ih =>
    rw [chain_cons] at chain ⊢
    refine ⟨chain.1, ?_⟩
    rw [same a (List.mem_cons_self ..)]
    exact ih chain.2 fun b inList => same b (List.mem_cons_of_mem _ inList)

/-- The links determine what is visited. -/
theorem Chain.unique {l' : List α} (chain : Chain next start l) (chain' : Chain next start l') : l = l' := by
  induction l generalizing start l' with
  | nil =>
    rw [chain_nil] at chain
    cases l' with
    | nil => rfl
    | cons b l' => simp [chain] at chain'
  | cons a l ih =>
    rw [chain_cons] at chain
    cases l' with
    | nil => simp [chain.1] at chain'
    | cons b l' =>
      rw [chain_cons, chain.1, Option.some.injEq] at chain'
      rw [chain'.1] at chain ⊢
      rw [ih chain.2 chain'.2]

/-- The nodes that following `next` from `start` comes to. -/
inductive Reaches (next : α → Option α) (start : Option α) : α → Prop
  | first {a : α} (here : start = some a) : Reaches next start a
  | step {a b : α} (before : Reaches next start a) (link : next a = some b) : Reaches next start b

theorem Chain.next_mem (chain : Chain next start l) {b : α} (isIn : a ∈ l) (link : next a = some b) : b ∈ l := by
  induction l generalizing start with
  | nil => cases isIn
  | cons c l ih =>
    obtain ⟨-, rest⟩ := chain_cons.mp chain
    rcases List.mem_cons.mp isIn with rfl | later
    · cases l with
      | nil => simp [link] at rest
      | cons d l =>
        rw [chain_cons, link] at rest
        rw [Option.some.inj rest.1]
        simp
    · exact List.mem_cons_of_mem _ (ih rest later)

theorem Chain.mem_of_reaches (chain : Chain next start l) (reaches : Reaches next start a) : a ∈ l := by
  induction reaches with
  | first here =>
    cases l with
    | nil => simp [here] at chain
    | cons b l =>
      rw [chain_cons, here] at chain
      rw [Option.some.inj chain.1]
      exact List.mem_cons_self ..
  | step before link ih => exact chain.next_mem ih link

theorem Chain.reaches_from {here : Option α} (chain : Chain next here l)
    (reaches : ∀ b, here = some b → Reaches next start b) (isIn : a ∈ l) : Reaches next start a := by
  induction l generalizing here with
  | nil => cases isIn
  | cons b l ih =>
    obtain ⟨rfl, rest⟩ := chain_cons.mp chain
    have first := reaches b rfl
    rcases List.mem_cons.mp isIn with rfl | later
    · exact first
    · exact ih rest (fun c link => .step first link) later

theorem Chain.reaches_of_mem (chain : Chain next start l) (isIn : a ∈ l) : Reaches next start a :=
  chain.reaches_from (fun _ first => .first first) isIn

end K210Linux.Lib
