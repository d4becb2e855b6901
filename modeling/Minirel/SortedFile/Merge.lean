import Minirel.Lib.Merge
import Minirel.SortedFile.Next

/-! Merging the runs. As long as the sort attributes that occur can be compared,
`next` takes the records in the order of `Merge.Merges`. -/
namespace Minirel
open Program

/-! Strings. -/

theorem memcmp_swap (n : Nat) (s t : List UInt8) : memcmp n t s = (memcmp n s t).swap := by
  induction n generalizing s t with
  | zero => rfl
  | succ n ih =>
    simp only [memcmp]
    by_cases same : s.headD 0 = t.headD 0
    · rw [if_neg (not_not_intro same), if_neg (not_not_intro same.symm)]
      exact ih s.tail t.tail
    · rw [if_pos same, if_pos (Ne.symm same)]
      exact (Nat.compare_swap _ _).symm

theorem memcmp_succ_ne_gt {n : Nat} {s t : List UInt8} : memcmp (n + 1) s t ≠ .gt ↔
    (s.headD 0).toNat < (t.headD 0).toNat ∨ s.headD 0 = t.headD 0 ∧
      memcmp n s.tail t.tail ≠ .gt := by
  simp only [memcmp]
  by_cases same : s.headD 0 = t.headD 0
  · rw [if_neg (not_not_intro same), same]
    simp
  · have differ : (s.headD 0).toNat ≠ (t.headD 0).toNat := fun equal => same (UInt8.toNat_inj.mp equal)
    rw [if_pos same, Nat.compare_ne_gt]
    constructor
    · exact fun le => .inl (by omega)
    · rintro (less | ⟨equal, _⟩)
      · omega
      · exact absurd equal same

theorem memcmp_trans (n : Nat) {s t u : List UInt8} (first : memcmp n s t ≠ .gt)
    (second : memcmp n t u ≠ .gt) :
    memcmp n s u ≠ .gt := by
  induction n generalizing s t u with
  | zero => nofun
  | succ n ih =>
    rw [memcmp_succ_ne_gt] at first second ⊢
    rcases first with less | ⟨same, first⟩
    · rcases second with less' | ⟨same', _⟩
      · exact .inl (by omega)
      · exact .inl (same' ▸ less)
    · rcases second with less' | ⟨same', second⟩
      · exact .inl (same ▸ less')
      · exact .inr ⟨same.trans same', ih first second⟩

namespace SortedFile
variable {st : Flat} {sf : SortedFile} {runs : List Run} {todos : List (List Entry)}

/-- The first record may come before the second. -/
def NotGreater (sf : SortedFile) (rec1 rec2 : List UInt8) :
    Prop := ∃ c, sf.compare rec1 rec2 = some c ∧ c ≤ 0

/-- `reccmp` is a total preorder on the sort attributes of these records. -/
structure Preorders (sf : SortedFile) (present : List UInt8 → Prop) : Prop where
  defined : ∀ a b, present a → present b → (sf.compare a b).isSome
  total : ∀ a b, present a → present b → sf.NotGreater a b ∨ sf.NotGreater b a
  trans : ∀ a b c, present a → present b → present c → sf.NotGreater a b → sf.NotGreater b c →
    sf.NotGreater a c

theorem notGreater_string {a b p q : List UInt8} (type : sf.type = .string)
    (first : sortField sf.offset sf.length a = some p)
    (second : sortField sf.offset sf.length b = some q) :
    (sf.compare a b).isSome ∧ (sf.NotGreater a b ↔ memcmp sf.length.toNat p q ≠ .gt) := by
  have same : sf.compare a b = reccmp p q sf.length sf.length .string := by
    simp only [compare, first, second, type]
  rw [NotGreater, same, reccmp, recdiff, min_self]
  cases memcmp sf.length.toNat p q with
  | lt => simp
  | eq => simp
  | gt => simp

theorem preorders_string {present : List UInt8 → Prop} (type : sf.type = .string)
    (inside : ∀ a, present a → (sortField sf.offset sf.length a).isSome) :
    sf.Preorders present := by
  have field (a : List UInt8) (here : present a) := Option.isSome_iff_exists.mp (inside a here)
  constructor
  · intro a b here here'
    obtain ⟨p, first⟩ := field a here
    obtain ⟨q, second⟩ := field b here'
    exact (notGreater_string type first second).1
  · intro a b here here'
    obtain ⟨p, first⟩ := field a here
    obtain ⟨q, second⟩ := field b here'
    rw [(notGreater_string type first second).2, (notGreater_string type second first).2,
      memcmp_swap _ p q]
    cases memcmp sf.length.toNat p q with
    | lt => exact .inl nofun
    | eq => exact .inl nofun
    | gt => exact .inr nofun
  · intro a b c here here' here''
    obtain ⟨p, first⟩ := field a here
    obtain ⟨q, second⟩ := field b here'
    obtain ⟨r, third⟩ := field c here''
    rw [(notGreater_string type first second).2, (notGreater_string type second third).2,
      (notGreater_string type first third).2]
    exact memcmp_trans _

/-- The second record has to come before the first. -/
def greater (sf : SortedFile) (e e' : Entry) : Bool := (sf.compare e.2 e'.2).any (0 < ·)

theorem greater_eq_false {e e' : Entry} (defined : (sf.compare e.2 e'.2).isSome) :
    sf.greater e e' = false ↔ sf.NotGreater e.2 e'.2 := by
  obtain ⟨c, same⟩ := Option.isSome_iff_exists.mp defined
  simp [greater, NotGreater, same]

theorem Preorders.orders {present : List UInt8 → Prop} (order : sf.Preorders present) :
    Merge.Orders sf.greater fun e => present e.2 where
  total a b here here' greater := by
    rw [greater_eq_false (order.defined _ _ here' here)]
    refine (order.total _ _ here here').resolve_left fun notGreater => ?_
    rw [← greater_eq_false (order.defined _ _ here here'), greater] at notGreater
    cases notGreater
  trans a b c first second third le le' := by
    rw [greater_eq_false (order.defined _ _ first second)] at le
    rw [greater_eq_false (order.defined _ _ second third)] at le'
    rw [greater_eq_false (order.defined _ _ first third)]
    exact order.trans _ _ _ first second third le le'

/-! The choice. -/

def head (best : Nat × Entry) : Nat × List UInt8 := (best.1, best.2.2)

theorem choose_eq {run : Run} {e : Entry} {todo : List Entry} {best : Option (Nat × Entry)}
    (i : Nat) (settled : run.Settled st (e :: todo))
    (defined : ∀ k b, best = some (k, b) → (sf.compare b.2 e.2).isSome) :
    sf.choose (best.map head) i run = some (some (head (Merge.better sf.greater best i e))) := by
  obtain ⟨present, record, _⟩ := settled.loaded
  rw [choose.eq_def, if_neg (by omega), record]
  cases best with
  | none => rfl
  | some best =>
    obtain ⟨k, b⟩ := best
    obtain ⟨c, same⟩ := Option.isSome_iff_exists.mp (defined k b rfl)
    simp only [Option.map_some, head, Merge.better, greater, same, Option.any_some, decide_eq_true_eq]
    split
    · rfl
    · rfl

theorem chooseAll_eq {present : List UInt8 → Prop} (best : Option (Nat × Entry)) (i : Nat)
    (settled : List.Forall₂ (Run.Settled · st) runs todos)
    (defined : ∀ a b, present a → present b → (sf.compare a b).isSome)
    (known : ∀ k b, best = some (k, b) → present b.2)
    (all : ∀ todo ∈ todos, ∀ e ∈ todo, present e.2) :
    sf.chooseAll (best.map head) i runs =
      some ((Merge.smallest sf.greater best i todos).map head) := by
  induction settled generalizing best i with
  | nil => rfl
  | @cons run todo runs todos first _ ih =>
    rw [List.forall_mem_cons] at all
    rw [chooseAll]
    cases todo with
    | nil =>
      rw [choose.eq_def, if_pos first.ended]
      exact ih best (i + 1) known all.2
    | cons e todo =>
      have here : present e.2 := all.1 e List.mem_cons_self
      rw [choose_eq i first fun k b same => defined _ _ (known k b same) here]
      refine ih (some (Merge.better sf.greater best i e)) (i + 1) ?_ all.2
      intro k b same
      rcases Merge.better_cases sf.greater best i e with new | old
      · rw [new] at same
        cases same
        exact here
      · exact known k b (old.trans same)

/-! The calls of `next`. -/

theorem next_merges {present : List UInt8 → Prop}
    (holds : List.Forall₂ (Run.Holds · st) sf.runs todos)
    (defined : ∀ a b, present a → present b → (sf.compare a b).isSome)
    (all : ∀ todo ∈ todos, ∀ e ∈ todo, present e.2) :
    ∃ runs, List.Forall₂ (Run.Settled · st) runs todos ∧ Returns Flat.handle (next · sf) st
      (sf.handOut runs ((Merge.smallest sf.greater none 0 todos).map head), st) := by
  obtain ⟨runs, settled, _, spec⟩ := next_spec holds
  have chosen := chooseAll_eq none 0 settled defined nofun all
  exact ⟨runs, settled, (spec _).mpr ⟨_, chosen, rfl⟩⟩

theorem nexts_eof {present : List UInt8 → Prop} (n : Nat)
    (holds : List.Forall₂ (Run.Holds · st) sf.runs todos)
    (defined : ∀ a b, present a → present b → (sf.compare a b).isSome)
    (all : ∀ todo ∈ todos, ∀ e ∈ todo, present e.2)
    (last : Merge.smallest sf.greater none 0 todos = none) :
    ∃ sf', Returns Flat.handle (nexts · n sf) st ((List.replicate n (.error .fileEof), sf'),
      st) := by
  induction n generalizing sf with
  | zero => exact ⟨sf, .of_run rfl⟩
  | succ n ih =>
    obtain ⟨runs, settled, next⟩ := next_merges holds defined all
    rw [last] at next
    have holds' := settled.imp fun _ _ settled => settled.holds
    obtain ⟨sf', rest⟩ := @ih { sf with runs := runs } holds' defined last
    exact ⟨sf', .bind next (.bind rest (.of_run rfl))⟩

theorem nexts_merges {present : List UInt8 → Prop} {out : List (Nat × Entry)} (n : Nat)
    (merges : Merge.Merges sf.greater todos out)
    (holds : List.Forall₂ (Run.Holds · st) sf.runs todos)
    (defined : ∀ a b, present a → present b → (sf.compare a b).isSome)
    (all : ∀ todo ∈ todos, ∀ e ∈ todo, present e.2) :
    ∃ sf', Returns Flat.handle (nexts · (out.length + n) sf) st
      ((out.map (fun e => .ok e.2.2) ++ List.replicate n (.error .fileEof), sf'), st) := by
  generalize order : sf.greater = gt at merges
  induction merges generalizing sf with
  | nil last =>
    rw [← order] at last
    rw [List.length_nil, Nat.zero_add]
    exact nexts_eof n holds defined all last
  | @cons todos i e out first _ ih =>
    obtain ⟨runs, settled, next⟩ := next_merges holds defined all
    rw [order, first] at next
    obtain ⟨rest, there⟩ := Merge.head_of_smallest first
    have all' := Merge.forall_modify_tail i all fun list here x member =>
      here x (List.mem_of_mem_tail member)
    obtain ⟨sf', later⟩ := @ih { sf with runs := _ } (handedOut_holds settled there) defined all' order
    refine ⟨sf', ?_⟩
    rw [List.length_cons, Nat.add_right_comm]
    exact .bind next (.bind later (.of_run rfl))

def Present (files : List (Name × List Entry)) (rec : List UInt8) : Prop := ∃ file ∈ files,
    ∃ e ∈ file.2, e.2 = rec

/-- The calls of `next` return the records of all runs in order, each one once and
those of a run as they stand in it, and then the end of the file. -/
theorem next_merges_runs (sf : SortedFile) (files : List (Name × List Entry))
    (named : ∀ file ∈ files, file.1 ≠ []) (tables : ∀ file ∈ files, Table st file.1 id file.2)
    (inside : ∀ rec, Present files rec → (sortField sf.offset sf.length rec).isSome)
    (order : sf.type = .string ∨ sf.Preorders (Present files))
    (sorted : ∀ file ∈ files, file.2.Pairwise fun e e' => sf.NotGreater e.2 e'.2) :
    ∃ runs st', Flat.run (startScans (files.map Prod.fst)) st = some (.ok runs, st') ∧
      ∃ out : List (Nat × Entry),
      (∀ j, (out.filter fun e => e.1 = j).map Prod.snd = (files[j]?.map Prod.snd).getD []) ∧
      (out.map Prod.snd).Pairwise (fun e e' => sf.NotGreater e.2 e'.2) ∧
      ∀ n, ∃ sf', Returns Flat.handle (nexts · (out.length + n) { sf with runs := runs }) st'
        ((out.map (fun e => .ok e.2.2) ++ List.replicate n (.error .fileEof), sf'), st') := by
  have order : sf.Preorders (Present files) := order.elim (fun type => preorders_string type inside) id
  have all : ∀ todo ∈ files.map Prod.snd, ∀ e ∈ todo, Present files e.2 := by
    intro todo member e here
    obtain ⟨file, listed, rfl⟩ := List.mem_map.mp member
    exact ⟨file, listed, e, here, rfl⟩
  obtain ⟨runs, st', start, _, holds, _⟩ := startScans_spec files named tables
  obtain ⟨out, merges⟩ := Merge.Merges.exists_out sf.greater (files.map Prod.snd)
  refine ⟨runs, st', start, out, fun j => ?_, ?_, fun n => ?_⟩
  · rw [merges.projection j, List.getElem?_map]
  · have lists : ∀ todo ∈ files.map Prod.snd, todo.Pairwise fun e e' => sf.greater e e' = false := by
      intro todo member
      obtain ⟨file, listed, rfl⟩ := List.mem_map.mp member
      refine (sorted file listed).imp_of_mem fun {e e'} here here' le => ?_
      rw [greater_eq_false (order.defined _ _ (all _ member e here) (all _ member e' here'))]
      exact le
    refine (merges.sorted order.orders all lists).imp_of_mem fun {e e'} here here' le => ?_
    have present (e : Entry) (taken : e ∈ out.map Prod.snd) : Present files e.2 := by
      obtain ⟨e, listed, rfl⟩ := List.mem_map.mp taken
      obtain ⟨todo, member, here⟩ := merges.mem listed
      exact all todo member e.2 here
    rw [greater_eq_false (order.defined _ _ (present e here) (present e' here'))] at le
    exact le
  · exact @nexts_merges st' { sf with runs := runs } _ _ _ n merges holds order.defined all

/-- Two runs whose records have the same key, and an empty run. -/
theorem next_merges_runs_equal : ∃ (st st' : Flat) (runs : List Run) (rid rid' : RID)
    (out : List (Nat × Entry)), Flat.run (startScans [chars "a", chars "b", chars "c"]) st =
      some (.ok runs, st') ∧
        (∀ j, (out.filter fun e => e.1 = j).map Prod.snd =
          ([[(rid, [7, 1])], [(rid', [7, 2])], []][j]?).getD []) ∧
      ∀ n, ∃ sf', Returns Flat.handle (nexts · (out.length + n) ⟨runs, .string, 0, 1⟩) st'
        ((out.map (fun e => .ok e.2.2) ++ List.replicate n (.error .fileEof), sf'), st') := by
  have third : Table _ (chars "c") (id : List UInt8 → _) [] := newFile_table .empty (chars "c")
  obtain ⟨f, rid, first⟩ := exists_single_table _ (chars "a") [7, 1] (by decide) (by decide) (by decide)
  obtain ⟨g, rid', second⟩ := exists_single_table _ (chars "b") [7, 2] (by decide) (by decide)
    (by decide)
  have third := (third.congr (Flat.files_put_of_ne f (show chars "c" ≠ chars "a" by decide))).congr
    (Flat.files_put_of_ne g (show chars "c" ≠ chars "b" by decide))
  have first := first.congr (Flat.files_put_of_ne g (show chars "a" ≠ chars "b" by decide))
  obtain ⟨runs, st', start, out, once, _, calls⟩ := next_merges_runs ⟨[], .string, 0, 1⟩
    [(chars "a", [(rid, [7, 1])]), (chars "b", [(rid', [7, 2])]), (chars "c", [])] (by simp [chars])
    (List.forall_mem_cons.mpr
      ⟨first, List.forall_mem_cons.mpr ⟨second, List.forall_mem_singleton.mpr third⟩⟩)
    (by simp [Present, sortField]) (.inl rfl) (by simp)
  refine ⟨_, st', runs, rid, rid', out, start, fun j => ?_, calls⟩
  rw [once j]
  rcases j with _ | _ | _ | j <;> rfl

end SortedFile
end Minirel
