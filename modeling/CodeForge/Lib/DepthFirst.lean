import Mathlib.Data.List.Chain
import Mathlib.Data.List.Induction
import Mathlib.Data.List.Nodup
import Mathlib.Logic.Relation
import CodeForge.Lib.Fallible

/-!
# Depth-first resolution

Nodes are found by keys, and need others by their keys.  `resolve` does what is
asked for, one after the other, and everything a node needs before the node.
Nodes are told apart by their labels: one that is done stands for every other
of its label, unless the two clash.

What is done is `Built`: its labels are distinct, and what a node needs stands
before it (`resolve_ok`).  Where nodes that have one label and do not clash are
the same, everything that is reached stands (`Built.stands`), and no node that
is reached needs itself (`Built.not_cyclic`).  Resolving fails with an error of
one of its parts, or because it is nested too deep, and then there is a chain of
requirements that is as long (`resolve_error`).
-/

namespace Lib

/-- Nodes, how they are found and what they need. -/
structure DepGraph (K N L ε : Type) where
  find : K → Except ε N
  label : N → L
  needs : N → List K
  /-- What is raised for a node that another of its label is done for. -/
  clash : (done new : N) → Option ε
  clash_self : ∀ n, clash n n = none
  /-- What is raised for a node that is needed for itself. -/
  cycle : N → ε
  /-- What is raised when calls are nested too deep. -/
  deep : ε

namespace DepGraph

variable {K N L ε : Type} (G : DepGraph K N L ε)

/-! ## What is reached -/

/-- A key is asked for, or a node that is reached needs it.  Finding out what is asked for may
fail. -/
inductive Reaches (asks : List (Except ε K)) : K → Prop where
  | asked {k : K} (there : .ok k ∈ asks) : Reaches asks k
  | needed {k k' : K} {n : N} (reached : Reaches asks k) (found : G.find k = .ok n)
      (need : k' ∈ G.needs n) : Reaches asks k'

/-- A node is found by a key that is reached. -/
def Reached (asks : List (Except ε K)) (n : N) : Prop := ∃ k, G.Reaches asks k ∧ G.find k = .ok n

/-- A node needs another. -/
def Needs (n m : N) : Prop := ∃ k ∈ G.needs n, G.find k = .ok m

/-- A key leads to a node that is done, or to one that another stands for. -/
def Stands (done : List N) (k : K) : Prop :=
  ∃ n, G.find k = .ok n ∧ ∃ m ∈ done, G.label m = G.label n ∧ G.clash m n = none

/-- Nodes with distinct labels, in an order where what each needs stands before it. -/
inductive Built : List N → Prop where
  | nil : Built []
  | concat {done : List N} {n : N} (built : Built done)
      (new : ∀ m ∈ done, G.label m ≠ G.label n) (ready : ∀ k ∈ G.needs n, G.Stands done k) :
      Built (done ++ [n])

variable {G} {asks : List (Except ε K)} {done done' : List N} {k : K} {n m : N}

theorem Reached.needs (h : G.Reached asks n) (need : G.Needs n m) : G.Reached asks m := by
  obtain ⟨k, reached, found⟩ := h
  obtain ⟨k', there, found'⟩ := need
  exact ⟨k', .needed reached found there, found'⟩

theorem Reached.all (h : G.Reached asks n) (walk : Relation.TransGen G.Needs n m) :
    G.Reached asks m := by
  induction walk with
  | single need => exact h.needs need
  | tail _ need ih => exact ih.needs need

theorem Stands.mono (h : G.Stands done k) (more : done <+: done') : G.Stands done' k := by
  obtain ⟨n, found, m, hm, same, apart⟩ := h
  exact ⟨n, found, m, more.subset hm, same, apart⟩

/-! ## What is done -/

theorem Built.nodup (h : G.Built done) : (done.map G.label).Nodup := by
  induction h with
  | nil => exact List.nodup_nil
  | concat built new ready ih =>
      rw [List.map_append, List.map_singleton]
      refine List.nodup_append.2 ⟨ih, List.nodup_singleton _, fun l hl l' hl' same => ?_⟩
      obtain ⟨m, hm, rfl⟩ := List.mem_map.1 hl
      exact new m hm (same.trans (List.mem_singleton.1 hl'))

/-- What a node needs stands before it. -/
theorem Built.ready (h : G.Built done) {before after : List N}
    (split : done = before ++ n :: after) : ∀ k ∈ G.needs n, G.Stands before k := by
  induction h generalizing after with
  | nil => simp at split
  | @concat done n' built new ready ih =>
      cases after using List.reverseRecOn with
      | nil =>
          obtain ⟨rfl, same⟩ := List.append_inj' split rfl
          cases same
          exact ready
      | append_singleton after last =>
          rw [← List.cons_append, ← List.append_assoc] at split
          exact ih (List.append_inj' split rfl).1

theorem Built.stands_needs (h : G.Built done) (there : n ∈ done) (need : k ∈ G.needs n) :
    G.Stands done k := by
  obtain ⟨before, after, split⟩ := List.append_of_mem there
  exact (h.ready split k need).mono ⟨n :: after, split.symm⟩

section Same

variable {Same : N → N → Prop} (needs : ∀ {m n}, Same m n → G.needs m = G.needs n)
include needs

/-- Everything that is reached stands. -/
theorem Built.stands (h : G.Built done) (all : ∀ k, .ok k ∈ asks → G.Stands done k)
    (one : ∀ m ∈ done, ∀ n, G.Reached asks n → G.label m = G.label n → G.clash m n = none →
      Same m n) (reached : G.Reaches asks k) : G.Stands done k := by
  induction reached with
  | asked there => exact all _ there
  | @needed k k' n reached found need ih =>
      obtain ⟨n', found', m, hm, same, apart⟩ := ih
      cases found.symm.trans found'
      have alike := one m hm n ⟨k, reached, found⟩ same apart
      exact h.stands_needs hm (needs alike ▸ need)

/-- No chain of requirements goes on for ever. -/
theorem Built.acc (h : G.Built done)
    (one : ∀ m ∈ done, ∀ n, G.Reached asks n → G.label m = G.label n → G.clash m n = none →
      Same m n) (there : m ∈ done) (reached : G.Reached asks n) (alike : Same m n) :
    Acc (fun a b => G.Needs b a) n := by
  induction h generalizing m n with
  | nil => cases there
  | @concat done last built new ready ih =>
      have one' := fun m hm => one m (List.mem_append_left _ hm)
      rcases List.mem_append.1 there with old | here
      · exact ih one' old reached alike
      · cases List.mem_singleton.1 here
        refine Acc.intro n fun a need => ?_
        obtain ⟨k, hk, found⟩ := need
        obtain ⟨a', found', m', hm', same, apart⟩ := ready k (needs alike ▸ hk)
        cases found.symm.trans found'
        have reached' := reached.needs ⟨k, hk, found⟩
        exact ih one' hm' reached' (one' m' hm' a reached' same apart)

/-- No node that is reached needs itself. -/
theorem Built.not_cyclic (h : G.Built done) (all : ∀ k, .ok k ∈ asks → G.Stands done k)
    (one : ∀ m ∈ done, ∀ n, G.Reached asks n → G.label m = G.label n → G.clash m n = none →
      Same m n) (reached : G.Reached asks n) : ¬Relation.TransGen G.Needs n n := by
  obtain ⟨k, reaches, found⟩ := reached
  obtain ⟨n', found', m, hm, same, apart⟩ := h.stands needs all one reaches
  cases found.symm.trans found'
  have ends := h.acc needs one hm ⟨k, reaches, found⟩ (one m hm n ⟨k, reaches, found⟩ same apart)
  intro round
  have irrefl : ∀ {a}, Acc (Relation.TransGen fun a b => G.Needs b a) a →
      ¬Relation.TransGen (fun a b => G.Needs b a) a a := by
    intro a acc
    induction acc with
    | intro a _ ih => exact fun again => ih a again again
  exact irrefl ends.transGen (Relation.transGen_swap.1 round)

end Same

/-! ## Resolving -/

variable [DecidableEq L]

section Visit

variable (G)

/-- Do a key, and what its node needs first.  The labels are of the nodes this is done for. -/
def visit : Nat → K → List L → List N → Except ε (List N)
  | 0, _, _, _ => .error G.deep
  | depth + 1, k, visiting, done => do
      let n ← G.find k
      match done.find? fun m => G.label m = G.label n with
      | some m =>
          match G.clash m n with
          | some e => throw e
          | none => return done
      | none =>
          if G.label n ∈ visiting then throw (G.cycle n)
          else do
            let done ← (G.needs n).foldlM
              (fun done k => visit depth k (G.label n :: visiting) done) done
            return done ++ [n]

/-- Do what is asked for. -/
def resolve (depth : Nat) (asks : List (Except ε K)) : Except ε (List N) :=
  asks.foldlM (fun done ask => do G.visit depth (← ask) [] done) []

end Visit

variable {depth : Nat} {visiting : List L} {e : ε}

theorem visit_eq_ok (h : G.visit (depth + 1) k visiting done = .ok done') :
    ∃ n, G.find k = .ok n ∧
      ((∃ m ∈ done, G.label m = G.label n ∧ G.clash m n = none ∧ done' = done) ∨
        (∀ m ∈ done, G.label m ≠ G.label n) ∧ G.label n ∉ visiting ∧
          ∃ mid, (G.needs n).foldlM
            (fun done k => G.visit depth k (G.label n :: visiting) done) done = .ok mid ∧
              done' = mid ++ [n]) := by
  rw [visit] at h
  obtain ⟨n, found, h⟩ := except_bind_eq_ok.1 h
  refine ⟨n, found, ?_⟩
  cases there : done.find? fun m => G.label m = G.label n with
  | some m =>
      rw [there] at h
      dsimp only at h
      have same : G.label m = G.label n := by simpa using List.find?_some there
      cases clash : G.clash m n with
      | some e =>
          rw [clash] at h
          cases h
      | none =>
          rw [clash] at h
          cases h
          exact .inl ⟨m, List.mem_of_find?_eq_some there, same, clash, rfl⟩
  | none =>
      rw [there] at h
      dsimp only at h
      have new : ∀ m ∈ done, G.label m ≠ G.label n := fun m hm => by
        simpa using List.find?_eq_none.1 there m hm
      split at h
      · cases h
      next fresh =>
        obtain ⟨mid, rest, h⟩ := except_bind_eq_ok.1 h
        cases h
        exact .inr ⟨new, fresh, mid, rest, rfl⟩

theorem visit_eq_error (h : G.visit (depth + 1) k visiting done = .error e) :
    G.find k = .error e ∨ ∃ n, G.find k = .ok n ∧
      ((∃ m, G.clash m n = some e) ∨ e = G.cycle n ∨
        G.label n ∉ visiting ∧ (G.needs n).foldlM
          (fun done k => G.visit depth k (G.label n :: visiting) done) done = .error e) := by
  rw [visit] at h
  rcases except_bind_eq_error.1 h with missing | ⟨n, found, h⟩
  · exact .inl missing
  refine .inr ⟨n, found, ?_⟩
  cases there : done.find? fun m => G.label m = G.label n with
  | some m =>
      rw [there] at h
      dsimp only at h
      cases clash : G.clash m n with
      | some e' =>
          rw [clash] at h
          cases h
          exact .inl ⟨m, clash⟩
      | none =>
          rw [clash] at h
          cases h
  | none =>
      rw [there] at h
      dsimp only at h
      split at h
      · cases h
        exact .inr (.inl rfl)
      next fresh =>
        rcases except_bind_eq_error.1 h with rest | ⟨mid, rest, h⟩
        · exact .inr (.inr ⟨fresh, rest⟩)
        · cases h

/-! ## What resolving does -/

/-- What is done grows, by nodes that are reached and whose labels are not of nodes this is done
for. -/
structure Grows (G : DepGraph K N L ε) (asks : List (Except ε K)) (visiting : List L)
    (done done' : List N) : Prop where
  more : done <+: done'
  built : G.Built done'
  new : ∀ n ∈ done', n ∈ done ∨ G.label n ∉ visiting ∧ G.Reached asks n

omit [DecidableEq L] in
theorem Grows.refl (built : G.Built done) : G.Grows asks visiting done done :=
  ⟨List.prefix_rfl, built, fun _ => .inl⟩

omit [DecidableEq L] in
theorem Grows.trans {done'' : List N} (h : G.Grows asks visiting done done')
    (h' : G.Grows asks visiting done' done'') : G.Grows asks visiting done done'' where
  more := h.more.trans h'.more
  built := h'.built
  new n hn := by
    rcases h'.new n hn with old | new
    · exact h.new n old
    · exact .inr new

omit [DecidableEq L] in
/-- Where every step does its key, all of them are done. -/
theorem grows_foldlM {step : List N → K → Except ε (List N)} {ks : List K}
    (each : ∀ k ∈ ks, ∀ done done', G.Built done → step done k = .ok done' →
      G.Grows asks visiting done done' ∧ G.Stands done' k)
    (built : G.Built done) (h : ks.foldlM step done = .ok done') :
    G.Grows asks visiting done done' ∧ ∀ k ∈ ks, G.Stands done' k := by
  induction ks generalizing done with
  | nil =>
      cases h
      exact ⟨.refl built, fun k hk => absurd hk List.not_mem_nil⟩
  | cons k ks ih =>
      rw [List.foldlM_cons] at h
      obtain ⟨mid, first, rest⟩ := except_bind_eq_ok.1 h
      obtain ⟨grows, stands⟩ := each k List.mem_cons_self done mid built first
      obtain ⟨grows', all⟩ :=
        ih (fun k' hk' => each k' (List.mem_cons_of_mem _ hk')) grows.built rest
      refine ⟨grows.trans grows', fun k' hk' => ?_⟩
      rcases List.mem_cons.1 hk' with rfl | later
      · exact stands.mono grows'.more
      · exact all k' later

/-- A visit does its key. -/
theorem visit_grows (reached : G.Reaches asks k) (built : G.Built done)
    (h : G.visit depth k visiting done = .ok done') :
    G.Grows asks visiting done done' ∧ G.Stands done' k := by
  induction depth generalizing k visiting done done' with
  | zero => cases h
  | succ depth ih =>
      obtain ⟨n, found, ⟨m, hm, same, apart, rfl⟩ | ⟨new, fresh, mid, rest, rfl⟩⟩ := visit_eq_ok h
      · exact ⟨.refl built, n, found, m, hm, same, apart⟩
      · obtain ⟨grows, ready⟩ := grows_foldlM
          (fun k' need done done' built => ih (.needed reached found need) built) built rest
        have apart : ∀ m ∈ mid, G.label m ≠ G.label n := by
          intro m hm same
          rcases grows.new m hm with old | ⟨other, -⟩
          · exact new m old same
          · exact other (same ▸ List.mem_cons_self)
        refine ⟨⟨grows.more.trans (List.prefix_append _ _), .concat grows.built apart ready, ?_⟩,
          n, found, n, List.mem_append_right _ List.mem_cons_self, rfl, G.clash_self n⟩
        intro m hm
        rcases List.mem_append.1 hm with old | last
        · rcases grows.new m old with there | ⟨other, reached⟩
          · exact .inl there
          · exact .inr ⟨fun mem => other (List.mem_cons_of_mem _ mem), reached⟩
        · cases List.mem_singleton.1 last
          exact .inr ⟨fresh, k, reached, found⟩

/-- **What is resolved** is built, has been reached, and everything that is asked for stands. -/
theorem resolve_ok (h : G.resolve depth asks = .ok done) :
    G.Built done ∧ (∀ n ∈ done, G.Reached asks n) ∧
      ∀ ask ∈ asks, ∃ k, ask = .ok k ∧ G.Stands done k := by
  have steps : ∀ asks' : List (Except ε K), (∀ ask ∈ asks', ask ∈ asks) → ∀ start, G.Built start →
      asks'.foldlM (fun done ask => do G.visit depth (← ask) [] done) start = .ok done →
      G.Grows asks [] start done ∧ ∀ ask ∈ asks', ∃ k, ask = .ok k ∧ G.Stands done k := by
    intro asks'
    induction asks' with
    | nil =>
        intro _ start built h
        cases h
        exact ⟨.refl built, fun ask there => absurd there List.not_mem_nil⟩
    | cons ask asks' ih =>
        intro sub start built h
        rw [List.foldlM_cons] at h
        obtain ⟨mid, first, rest⟩ := except_bind_eq_ok.1 h
        obtain ⟨k, rfl, first⟩ := except_bind_eq_ok.1 first
        obtain ⟨grows, stands⟩ := visit_grows (.asked (sub _ List.mem_cons_self)) built first
        obtain ⟨grows', all⟩ :=
          ih (fun a there => sub a (List.mem_cons_of_mem _ there)) mid grows.built rest
        refine ⟨grows.trans grows', fun ask' there => ?_⟩
        rcases List.mem_cons.1 there with rfl | later
        · exact ⟨k, rfl, stands.mono grows'.more⟩
        · exact all ask' later
  obtain ⟨grows, all⟩ := steps asks (fun _ there => there) [] .nil h
  refine ⟨grows.built, fun n hn => ?_, all⟩
  rcases grows.new n hn with old | ⟨-, reached⟩
  · cases old
  · exact reached

/-! ## How resolving fails -/

/-- Nodes with distinct labels, each needed by the next. -/
structure Chain (G : DepGraph K N L ε) (asks : List (Except ε K)) (ns : List N) : Prop where
  linked : ns.IsChain fun n m => G.Needs m n
  nodup : (ns.map G.label).Nodup
  reached : ∀ n ∈ ns, G.Reached asks n

theorem visit_error {ns : List N} (chain : G.Chain asks ns) (reached : G.Reaches asks k)
    (need : ∀ n ∈ ns.head?, k ∈ G.needs n)
    (h : G.visit depth k (ns.map G.label) done = .error e) :
    (∃ k, G.Reaches asks k ∧ G.find k = .error e) ∨ (∃ m n, G.clash m n = some e) ∨
      (∃ n, e = G.cycle n) ∨ e = G.deep ∧ ∃ ns', G.Chain asks ns' ∧
        ns'.length = ns.length + depth := by
  induction depth generalizing k ns done with
  | zero =>
      cases h
      exact .inr (.inr (.inr ⟨rfl, ns, chain, rfl⟩))
  | succ depth ih =>
      rcases visit_eq_error h with missing | ⟨n, found, ⟨m, clash⟩ | cycle | ⟨fresh, rest⟩⟩
      · exact .inl ⟨k, reached, missing⟩
      · exact .inr (.inl ⟨m, n, clash⟩)
      · exact .inr (.inr (.inl ⟨n, cycle⟩))
      · obtain ⟨k', there, done', failed⟩ := except_foldlM_error rest
        have longer : G.Chain asks (n :: ns) := by
          refine ⟨?_, List.nodup_cons.2 ⟨fresh, chain.nodup⟩, fun n' there => ?_⟩
          · refine List.isChain_cons.2 ⟨fun m hm => ⟨k, need m hm, found⟩, chain.linked⟩
          · rcases List.mem_cons.1 there with rfl | old
            · exact ⟨k, reached, found⟩
            · exact chain.reached n' old
        have deeper := ih longer (.needed reached found there)
          (fun m hm => by cases hm; exact there) failed
        rw [List.length_cons, Nat.add_assoc, Nat.add_comm 1 depth] at deeper
        exact deeper

/-- **How resolving fails**: what is asked for is not found out, a node that is reached is not
found, two clash, one is needed for itself, or there is a chain of requirements that is too
long. -/
theorem resolve_error (h : G.resolve depth asks = .error e) :
    .error e ∈ asks ∨ (∃ k, G.Reaches asks k ∧ G.find k = .error e) ∨
      (∃ m n, G.clash m n = some e) ∨ (∃ n, e = G.cycle n) ∨
        e = G.deep ∧ ∃ ns, G.Chain asks ns ∧ ns.length = depth := by
  obtain ⟨ask, there, done, failed⟩ := except_foldlM_error h
  rcases except_bind_eq_error.1 failed with rfl | ⟨k, rfl, failed⟩
  · exact .inl there
  have start : G.Chain asks [] := ⟨List.isChain_nil, List.nodup_nil, fun n hn => by cases hn⟩
  have deeper := visit_error start (.asked there) (fun n hn => by cases hn) failed
  rw [List.length_nil, Nat.zero_add] at deeper
  exact .inr deeper

end DepGraph

end Lib
