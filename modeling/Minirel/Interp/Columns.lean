import Minirel.Catalog.Database
import Minirel.Interp
import Minirel.Flat
import Minirel.Lib.Contract
import Minirel.Query.Text

/-! The names of the columns of a join. A name that was given before is replaced
by itself, an underscore and the counter, but the new name is compared with no
other one. -/
namespace Minirel
open Program

/-- The number is what follows the last underscore. -/
theorem suffixed_counter {name other : Name} {counter number : Nat}
    (same : suffixed name counter = suffixed other number) : counter = number := by
  have digits (name : Name) (counter : Nat) :
      (suffixed name counter).reverse.takeWhile (· ≠ 95) = (decimal counter).reverse := by
    have plain : ∀ c ∈ (decimal counter).reverse, decide (c ≠ 95) = true := by
      intro c member
      have digit := decimal_digits counter c (List.mem_reverse.mp member)
      simp only [ne_eq, decide_not, Bool.not_eq_true', decide_eq_false_iff_not]
      rintro rfl
      exact absurd digit (by decide)
    rw [suffixed, List.reverse_append, List.reverse_cons, List.append_assoc,
      List.takeWhile_append_of_pos plain]
    simp
  have texts : (decimal counter).reverse = (decimal number).reverse := by
    rw [← digits name counter, same, digits]
  have values := congrArg leadingDigits (List.reverse_injective texts)
  rw [leadingDigits_decimal, leadingDigits_decimal] at values
  exact_mod_cast values

structure Columns where
  given : List Name
  counter : Nat
deriving DecidableEq, Repr

namespace Columns
variable {start : Nat} {names : List Name} {attrName : Name}

def step (s : Columns) (attrName : Name) : Columns :=
  if attrName ∈ s.given then ⟨s.given ++ [suffixed attrName s.counter], s.counter + 1⟩
  else ⟨s.given ++ [attrName], s.counter⟩

def build (start : Nat) (names : List Name) : Columns := names.foldl step ⟨[], start⟩

theorem createAttrs_makes (fuel : Nat) (resultName : Name) (given : List Name) (counter : Nat)
    (attrs : List AttrInfo) :
    (createAttrs fuel resultName true given counter attrs).Makes (fun _ => True) fun result =>
      ∀ created, result.1 = .ok created →
        (⟨given ++ created.map AttrInfo.attrName, result.2⟩ : Columns) =
          (attrs.map AttrInfo.attrName).foldl step ⟨given, counter⟩ := by
  induction attrs generalizing given counter with
  | nil =>
    rw [createAttrs, makes_pure]
    rintro _ ⟨⟩
    rw [List.map_nil, List.append_nil]
    rfl
  | cons attr attrs ih =>
    rw [createAttrs]
    refine makes_bind.mpr (.of_forall fun found => ?_)
    cases found with
    | error status =>
      rw [makes_pure]
      nofun
    | ok attrDesc =>
      refine makes_bind.mpr ((ih _ _).mono ?_)
      rintro ⟨_ | created, counter'⟩ built
      · rw [makes_pure]
        nofun
      · rw [makes_pure]
        rintro _ ⟨⟩
        have rest := built created rfl
        rw [List.append_assoc] at rest
        refine rest.trans ?_
        rw [List.map_cons, List.foldl_cons, step]
        by_cases taken : attr.attrName ∈ given <;> simp [taken, suffixed]

theorem build_append (start : Nat) (names : List Name) (attrName : Name) :
    build start (names ++ [attrName]) = (build start names).step attrName := by
  rw [build, List.foldl_append]
  rfl

/-- Every name of the list has been given to some column; any other name that was
given has a number. -/
theorem build_given (start : Nat) (names : List Name) :
    (∀ name ∈ names, name ∈ (build start names).given) ∧
      ∀ g ∈ (build start names).given, g ∈ names ∨ ∃ name k, g = suffixed name k ∧
        k < (build start names).counter := by
  induction names using List.reverseRecOn with
  | nil => simp [build]
  | append_singleton names attrName ih =>
    obtain ⟨all, only⟩ := ih
    rw [build_append, step]
    by_cases taken : attrName ∈ (build start names).given
    · rw [if_pos taken]
      refine ⟨fun name member => ?_, fun g member => ?_⟩
      · refine List.mem_append_left _ ?_
        rcases List.mem_append.mp member with member | member
        · exact all name member
        · rwa [List.mem_singleton.mp member]
      · rcases List.mem_append.mp member with member | member
        · rcases only g member with listed | ⟨name, k, same, below⟩
          · exact .inl (List.mem_append_left _ listed)
          · exact .inr ⟨name, k, same, Nat.lt_succ_of_lt below⟩
        · exact .inr ⟨attrName, _, List.mem_singleton.mp member, Nat.lt_succ_self _⟩
    · rw [if_neg taken]
      refine ⟨fun name member => ?_, fun g member => ?_⟩
      · rcases List.mem_append.mp member with member | member
        · exact List.mem_append_left _ (all name member)
        · exact List.mem_append_right _ member
      · rcases List.mem_append.mp member with member | member
        · exact (only g member).imp_left (List.mem_append_left _)
        · exact .inl (List.mem_append_right _ member)

/-- A new name is in use if and only if it is one of the list. -/
theorem suffixed_mem_given (start : Nat) (names : List Name) (attrName : Name) :
    suffixed attrName (build start names).counter ∈ (build start names).given ↔
      suffixed attrName (build start names).counter ∈ names := by
  obtain ⟨all, only⟩ := build_given start names
  refine ⟨fun member => ?_, all _⟩
  refine (only _ member).resolve_right ?_
  rintro ⟨name, k, same, below⟩
  have number := suffixed_counter same
  omega

/-- The names are distinct and fit into the catalog. -/
def Valid (s : Columns) : Prop := s.given.Nodup ∧ ∀ g ∈ s.given, g.length < maxName

/-- No column gets a new name that is too long, or that stands before it in the
projection list. -/
def Clear (start : Nat) (names : List Name) : Prop :=
  ∀ front attrName back, names = front ++ attrName :: back → attrName ∈ (build start front).given →
    suffixed attrName (build start front).counter ∉ front ∧
      (suffixed attrName (build start front).counter).length < maxName

theorem valid_step (s : Columns) (short : attrName.length < maxName) :
    (s.step attrName).Valid ↔ s.Valid ∧ (attrName ∈ s.given →
      suffixed attrName s.counter ∉ s.given ∧ (suffixed attrName s.counter).length < maxName) := by
  have added (g : Name) (counter : Nat) :
      (⟨s.given ++ [g], counter⟩ : Columns).Valid ↔ s.Valid ∧ g ∉ s.given ∧ g.length < maxName := by
    simp only [Valid, List.nodup_append, List.nodup_singleton, List.mem_singleton, List.mem_append,
      forall_eq, or_imp, forall_and]
    constructor
    · rintro ⟨⟨distinct, -, apart⟩, fits, fit⟩
      exact ⟨⟨distinct, fits⟩, fun member => apart g member rfl, fit⟩
    · rintro ⟨⟨distinct, fits⟩, fresh, fit⟩
      exact ⟨⟨distinct, trivial, fun x member same => fresh (same ▸ member)⟩, fits, fit⟩
  rw [step]
  by_cases taken : attrName ∈ s.given
  · rw [if_pos taken, added]
    simp [taken]
  · rw [if_neg taken, added]
    simp [taken, short]

theorem clear_append (start : Nat) (names : List Name) (attrName : Name) :
    Clear start (names ++ [attrName]) ↔ Clear start names ∧ (attrName ∈ (build start names).given →
      suffixed attrName (build start names).counter ∉ names ∧
        (suffixed attrName (build start names).counter).length < maxName) := by
  constructor
  · refine fun clear => ⟨fun front name back split => ?_, clear names attrName [] rfl⟩
    exact clear front name (back ++ [attrName]) (by rw [split, List.append_assoc, List.cons_append])
  · rintro ⟨clear, last⟩ front name back split
    rcases List.eq_nil_or_concat back with rfl | ⟨back, final, rfl⟩
    · obtain ⟨rfl, same⟩ := List.append_inj' split rfl
      cases same
      exact last
    · have parts : names ++ [attrName] = (front ++ name :: back) ++ [final] := by
        rw [split, List.concat_eq_append, List.append_assoc, List.cons_append]
      exact clear front name back (List.append_inj' parts rfl).1

/-- The names are valid if and only if the list is clear. -/
theorem build_valid_iff (start : Nat) (short : ∀ name ∈ names, name.length < maxName) :
    (build start names).Valid ↔ Clear start names := by
  induction names using List.reverseRecOn with
  | nil => exact iff_of_true ⟨List.nodup_nil, nofun⟩ fun front name back split => absurd split (by simp)
  | append_singleton names attrName ih =>
    have lengths := List.forall_mem_append.mp short
    rw [build_append, valid_step _ (lengths.2 attrName (List.mem_singleton_self _)), clear_append,
      ih lengths.1, suffixed_mem_given]

theorem createRel_status {relation : Name} {created : List AttrInfo} (db : Database)
    (fits : relation.length < maxName) (distinct : (created.map AttrInfo.attrName).Nodup)
    (short : ∀ attr ∈ created, attr.Short) :
    (db.createRel relation created).1 ≠ .duplAttr ∧
      (db.createRel relation created).1 ≠ .nameTooLong := by
  generalize result : db.createRel relation created = r
  have creation := db.createRel_cases relation created
  rw [result] at creation
  cases creation with
  | refused refused =>
    unfold Database.refusal at refused
    split_ifs at refused with bad long listed wide
    · exact Option.some.inj refused ▸ ⟨nofun, nofun⟩
    · omega
    · exact Option.some.inj refused ▸ ⟨nofun, nofun⟩
    · exact Option.some.inj refused ▸ ⟨nofun, nofun⟩
  | stopped accepted long => exact absurd short long
  | known accepted short known openCnt => exact ⟨nofun, nofun⟩
  | uncreatable accepted short uncreatable => exact ⟨nofun, nofun⟩
  | created accepted short => exact ⟨nofun, nofun⟩

/-- For every projection list and every value of the counter: the names that the
interpreter creates the result relation with are distinct and short enough, so
that `createRel` does not refuse them, if and only if the list is clear. -/
theorem columns_valid_iff {attrs : List AttrInfo} {resultName : Name} (start : Nat)
    (short : ∀ attr ∈ attrs, attr.Short) (fits : resultName.length < maxName) :
    (∀ fuel st created counter st',
      Flat.run (createAttrs fuel resultName true [] start attrs) st =
        some ((.ok created, counter), st') →
          created.map AttrInfo.attrName = (build start (attrs.map AttrInfo.attrName)).given ∧
        ((build start (attrs.map AttrInfo.attrName)).Valid → ∀ db : Database,
          (db.createRel resultName created).1 ≠ .duplAttr ∧
            (db.createRel resultName created).1 ≠ .nameTooLong)) ∧
      ((build start (attrs.map AttrInfo.attrName)).Valid ↔
        Clear start (attrs.map AttrInfo.attrName)) := by
  refine ⟨fun fuel st created counter st' returned => ?_,
    build_valid_iff start (List.forall_mem_map.mpr short)⟩
  have made := (createAttrs_makes fuel resultName [] start attrs).result returned
  have given : created.map AttrInfo.attrName = (build start (attrs.map AttrInfo.attrName)).given :=
    congrArg Columns.given (made created rfl)
  refine ⟨given, fun valid db => createRel_status db fits ?_ fun attr member => ?_⟩
  · rw [given]
    exact valid.1
  · exact valid.2 _ (given ▸ List.mem_map_of_mem member)

instance (s : Columns) : Decidable s.Valid := inferInstanceAs (Decidable (_ ∧ _))

def twice : List AttrInfo :=
  [QualAttr.info ⟨[114], [97]⟩, QualAttr.info ⟨[114], [98]⟩, QualAttr.info ⟨[115], [97]⟩]

/-- Of `r.a, r.b, s.a` the last column becomes `a_7`, and a relation of these
columns is not refused for its names. -/
theorem columns_valid_twice :
    (build 7 (twice.map AttrInfo.attrName)).given = [[97], [98], [97, 95, 55]] ∧
    (build 7 (twice.map AttrInfo.attrName)).Valid ∧ ∀ fuel st created counter st',
      Flat.run (createAttrs fuel [116] true [] 7 twice) st = some ((.ok created, counter), st') →
        ∀ db : Database, (db.createRel [116] created).1 ≠ .duplAttr ∧
          (db.createRel [116] created).1 ≠ .nameTooLong := by
  have clear : Clear 7 (twice.map AttrInfo.attrName) := by
    intro front attrName back split given
    obtain _ | ⟨a, _ | ⟨b, _ | ⟨c, front⟩⟩⟩ := front
    · cases given
    · cases split
      exact absurd given (by decide)
    · cases split
      decide
    · cases front <;> cases split
  have checked := @columns_valid_iff twice [116] 7 (by decide) (by decide)
  have valid := checked.2.mpr clear
  refine ⟨by decide, valid, fun fuel st created counter st' returned db => ?_⟩
  exact (checked.1 fuel st created counter st' returned).2 valid db

/-- The second `a` gets the name that the first column has, and a name of 31
characters becomes too long. -/
theorem suffixed_columns_invalid :
    (build 0 [chars "a_0", chars "a", chars "a"]).given = [chars "a_0", chars "a", chars "a_0"] ∧
      ¬ (build 0 [chars "a_0", chars "a", chars "a"]).Valid ∧
      ¬ (build 0 [List.replicate 31 97, List.replicate 31 97]).Valid := by
  decide

end Columns
end Minirel
