import Minirel.Catalog.Consistency
import Minirel.Query.Relation

/-! Databases that hold given relations with given records. -/
namespace Minirel

structure Declared (attrList : List AttrInfo) : Prop where
  nonempty : attrList ≠ []
  distinct : (attrList.map AttrInfo.attrName).Nodup
  names : ∀ attr ∈ attrList, CName attr.attrName
  lengths : ∀ attr ∈ attrList, 1 ≤ attr.attrLen
  width : (attrList.map AttrInfo.attrLen).sum < 2 ^ 31

instance (attrList : List AttrInfo) : Decidable (Declared attrList) :=
  decidable_of_iff (attrList ≠ [] ∧ (attrList.map AttrInfo.attrName).Nodup ∧
    (∀ attr ∈ attrList, CName attr.attrName) ∧
      (∀ attr ∈ attrList, 1 ≤ attr.attrLen) ∧ (attrList.map AttrInfo.attrLen).sum < 2 ^ 31)
    ⟨fun ⟨nonempty, distinct, names, lengths, width⟩ => ⟨nonempty, distinct, names, lengths, width⟩,
      fun declared => ⟨declared.nonempty, declared.distinct, declared.names, declared.lengths,
        declared.width⟩⟩

section describe
variable {relation : Name} {attrList : List AttrInfo} {offset : Int}

theorem describe_of_mem {d : AttrDesc} (listed : d ∈ describe relation offset attrList) :
    ∃ attr ∈ attrList,
    d.relName = relation ∧ d.attrName = attr.attrName ∧ d.attrType = int attr.attrType ∧
      d.attrLen = int attr.attrLen := by
  induction attrList generalizing offset with
  | nil => cases listed
  | cons attr attrs ih =>
    rcases List.mem_cons.mp listed with rfl | listed
    · exact ⟨attr, List.mem_cons_self, rfl, rfl, rfl, rfl⟩
    · obtain ⟨attr', member, same⟩ := ih listed
      exact ⟨attr', List.mem_cons_of_mem _ member, same⟩

theorem sum_lengths_nonneg (lengths : ∀ attr ∈ attrList, 1 ≤ attr.attrLen) :
    0 ≤ (attrList.map AttrInfo.attrLen).sum := by
  induction attrList with
  | nil => rfl
  | cons attr attrs ih =>
    rw [List.forall_mem_cons] at lengths
    have := ih lengths.2
    rw [List.map_cons, List.sum_cons]
    omega

theorem describe_total (relation : Name) (offset : Int)
    (lengths : ∀ attr ∈ attrList, 1 ≤ attr.attrLen)
    (width : (attrList.map AttrInfo.attrLen).sum < 2 ^ 31) :
    AttrDesc.total (describe relation offset attrList) = (attrList.map AttrInfo.attrLen).sum := by
  induction attrList generalizing offset with
  | nil => rfl
  | cons attr attrs ih =>
    rw [List.forall_mem_cons] at lengths
    have rest := sum_lengths_nonneg lengths.2
    rw [List.map_cons, List.sum_cons] at width ⊢
    have fits : int attr.attrLen = attr.attrLen := int_of_fits (by omega) (by omega)
    have total := ih (int (offset + int attr.attrLen)) lengths.2 (by omega)
    rw [AttrDesc.total] at total ⊢
    rw [describe, List.map_cons, List.sum_cons, total, fits]

/-- The attributes lie behind one another. -/
theorem describe_placed (lengths : ∀ attr ∈ attrList, 1 ≤ attr.attrLen) (low : 0 ≤ offset)
    (high : offset + (attrList.map AttrInfo.attrLen).sum < 2 ^ 31) :
    ∀ d ∈ describe relation offset attrList, offset ≤ d.attrOffset ∧ 1 ≤ d.attrLen ∧
      d.attrOffset + d.attrLen ≤ offset + (attrList.map AttrInfo.attrLen).sum := by
  induction attrList generalizing offset with
  | nil => simp [describe]
  | cons attr attrs ih =>
    rw [List.forall_mem_cons] at lengths
    have rest := sum_lengths_nonneg lengths.2
    rw [List.map_cons, List.sum_cons] at high ⊢
    have fits : int attr.attrLen = attr.attrLen := int_of_fits (by omega) (by omega)
    have next : int (offset + attr.attrLen) = offset + attr.attrLen := int_of_fits (by omega) (by omega)
    rw [describe, fits, next, List.forall_mem_cons]
    refine ⟨⟨le_refl _, lengths.1, by dsimp only; omega⟩, fun d member => ?_⟩
    obtain ⟨first, length, last⟩ := ih lengths.2 (by omega) (by omega) d member
    exact ⟨by omega, length, by omega⟩

end describe

section populate
variable {st : Flat} {cat : Catalog} {relation : Name} {attrList : List AttrInfo}
    {contents : List (List UInt8)}

theorem TableAt.fill {rows : List Entry} (table : TableAt st relation id rows [])
    (named : relation ≠ []) (sized : ∀ b ∈ contents, 0 < b.length ∧ b.length ≤ 1000) :
    ∃ g rows', TableAt (st.put relation g) relation id rows' [] ∧
      rows'.map Prod.snd = rows.map Prod.snd ++ contents := by
  induction contents generalizing st rows with
  | nil =>
    obtain ⟨g, same⟩ := table.put_self
    exact ⟨g, rows, by rwa [same], by simp⟩
  | cons b contents ih =>
    rw [List.forall_mem_cons] at sized
    obtain ⟨rid, g, _, table'⟩ := addRecord_last (a := b) table named sized.1.1 sized.1.2
    obtain ⟨g', rows', table'', list⟩ := ih table' sized.2
    rw [Flat.put_put] at table''
    exact ⟨g', rows', table'', by rw [list]; simp⟩

theorem Represents.populate (rep : Represents st cat) (name : CName relation)
    (named : relation ≠ []) (user : UserName relation) (unlisted : cat.rel relation = none)
    (undescribed : cat.rows relation = []) (declared : Declared attrList)
    (sized : ∀ b ∈ contents, (b.length : Int) = (attrList.map AttrInfo.attrLen).sum ∧
      b.length ≤ 1000) :
    ∃ st' cat' records, Represents st' cat' ∧
      Relation st' relation (describe relation 0 attrList) records ∧
        records.map Prod.snd = contents ∧
      TableAt st' relation id records [] ∧
      (∀ other ≠ relation, cat'.rel other = cat.rel other ∧ cat'.rows other = cat.rows other) ∧
      ∀ other ≠ relation, UserName other → st'.files other = st.files other := by
  obtain ⟨nonempty, distinct, names, lengths, width⟩ := declared
  have valid (attrCnt : Int) : RelDesc.Valid ⟨relation, int attrCnt⟩ := ⟨name, int_int attrCnt⟩
  obtain ⟨f, _, rep₁⟩ := RelCatalog.addInfo_spec rep (valid attrList.length) unlisted
  obtain ⟨g, _, rep₂⟩ := addAttrs_spec rep₁ name (fun attr member => (names attr member).terminated)
    undescribed
  obtain ⟨st₂, eq⟩ : ∃ st₂, st₂ = (st.put relCatName f).put attrCatName g := ⟨_, rfl⟩
  rw [← eq, storable_of_short fun attr member => (names attr member).fits] at rep₂
  have positive : 1 ≤ (attrList.map AttrInfo.attrLen).sum := by
    cases attrList with
    | nil => exact absurd rfl nonempty
    | cons attr attrs =>
      have first := lengths attr List.mem_cons_self
      have rest := sum_lengths_nonneg fun attr member => lengths attr (List.mem_cons_of_mem _ member)
      rw [List.map_cons, List.sum_cons]
      omega
  have empty : TableAt (st₂.put relation (newFile st₂)) relation (id : List UInt8 → _) [] [] :=
    (newFile_table st₂ relation).at
  obtain ⟨h, records, table, list⟩ :=
    empty.fill named (fun b member => by have := sized b member; omega)
  rw [Flat.put_put] at table
  have beside : ∀ other ≠ relation, (st₂.put relation h).files other = st₂.files other :=
    fun other apart => Flat.files_put_of_ne h apart
  have rep₃ := rep₂.congr (beside _ user.1.symm) (beside _ user.2.symm)
  have total := describe_total relation 0 lengths width
  refine ⟨st₂.put relation h, _, records, rep₃,
    ⟨named, name.terminated, ⟨_, rep₃, ?_⟩, ?_, ?_, ?_, ?_⟩, ?_, table, ?_, ?_⟩
  · exact Catalog.rows_setRows ..
  · rw [describe_names]
    exact distinct
  · rw [total]
    simpa using describe_placed lengths (Int.le_refl 0) (by omega)
  · simpa using table.table
  · intro r member
    rw [total]
    refine (sized r.2 ?_).1
    have listed := List.mem_map_of_mem (f := Prod.snd) member
    rw [list] at listed
    simpa using listed
  · simpa using list
  · intro other apart
    refine ⟨Function.update_of_ne apart .., ?_⟩
    rw [Catalog.rows_setRows_of_ne apart]
    rfl
  · intro other apart user'
    rw [beside other apart, eq, Flat.files_put_of_ne _ user'.2, Flat.files_put_of_ne _ user'.1]

end populate

theorem Relation.congr {st st' : Flat} {name : Name} {attrs : List AttrDesc} {records : List Entry}
    (relation : Relation st name attrs records)
    (described : ∃ cat, Represents st' cat ∧ cat.rows name = attrs)
    (same : st'.files name = st.files name) : Relation st' name attrs records :=
  { relation with described, table := relation.table.congr same }

/-- A relation as it is to be found in a database. -/
structure Setup where
  relation : Name
  attrList : List AttrInfo
  contents : List (List UInt8)

structure Setup.Sound (s : Setup) : Prop where
  name : CName s.relation
  named : s.relation ≠ []
  user : UserName s.relation
  declared : Declared s.attrList
  sized : ∀ b ∈ s.contents, (b.length : Int) = (s.attrList.map AttrInfo.attrLen).sum ∧ b.length ≤ 1000

instance (s : Setup) : Decidable s.Sound :=
  decidable_of_iff (CName s.relation ∧ s.relation ≠ [] ∧ UserName s.relation ∧ Declared s.attrList ∧
      ∀ b ∈ s.contents, (b.length : Int) = (s.attrList.map AttrInfo.attrLen).sum ∧ b.length ≤ 1000)
    ⟨fun ⟨name, named, user, declared, sized⟩ => ⟨name, named, user, declared, sized⟩,
      fun sound => ⟨sound.name, sound.named, sound.user, sound.declared, sound.sized⟩⟩

def Setup.attrs (s : Setup) : List AttrDesc := describe s.relation 0 s.attrList

def Setup.Holds (s : Setup) (st : Flat) : Prop :=
  ∃ records, Relation st s.relation s.attrs records ∧ records.map Prod.snd = s.contents

def Setup.Packed (s : Setup) (st : Flat) : Prop :=
  ∃ records, Relation st s.relation s.attrs records ∧ records.map Prod.snd = s.contents ∧
    TableAt st s.relation id records []

theorem exists_packed (setups : List Setup) (sound : ∀ s ∈ setups, s.Sound)
    (distinct : (setups.map Setup.relation).Nodup) : ∃ st, ∀ s ∈ setups, s.Packed st := by
  -- the others are unlisted, so that the next one can come
  suffices holds : ∃ st cat, Represents st cat ∧ (∀ s ∈ setups, s.Packed st) ∧
      ∀ name, UserName name → name ∉ setups.map Setup.relation → cat.rel name = none ∧
        cat.rows name = [] by
    obtain ⟨st, _, _, holds, _⟩ := holds
    exact ⟨st, holds⟩
  induction setups with
  | nil =>
    obtain ⟨st, _, real, _⟩ := Recorded.exists_created
    refine ⟨st, _, real.catalogs, by simp, fun name user _ => ?_⟩
    simp [Database.initial, user.1, user.2]
  | cons s setups ih =>
    rw [List.forall_mem_cons] at sound
    rw [List.map_cons, List.nodup_cons] at distinct
    obtain ⟨st, cat, rep, holds, free⟩ := ih sound.2 distinct.2
    obtain ⟨name, named, user, declared, sized⟩ := sound.1
    obtain ⟨unlisted, undescribed⟩ := free s.relation user distinct.1
    obtain ⟨st', cat', records, rep', relation, contents, packed, beside, files⟩ :=
      rep.populate name named user unlisted undescribed declared sized
    refine ⟨st', cat', rep',
      List.forall_mem_cons.mpr ⟨⟨records, relation, contents, packed⟩, fun s' member => ?_⟩, ?_⟩
    · obtain ⟨records', relation', contents', packed'⟩ := holds s' member
      have apart : s'.relation ≠ s.relation := fun same =>
        distinct.1 (same ▸ List.mem_map_of_mem member)
      obtain ⟨cat₀, rep₀, rows⟩ := relation'.described
      cases rep.unique rep₀
      have same := files _ apart (sound.2 s' member).user
      exact ⟨records', relation'.congr ⟨cat', rep', (beside _ apart).2.trans rows⟩ same, contents',
        packed'.congr same⟩
    · intro other user' unlisted'
      rw [List.map_cons, List.mem_cons, not_or] at unlisted'
      rw [(beside other unlisted'.1).1, (beside other unlisted'.1).2]
      exact free other user' unlisted'.2

theorem exists_database (setups : List Setup) (sound : ∀ s ∈ setups, s.Sound)
    (distinct : (setups.map Setup.relation).Nodup) : ∃ st, ∀ s ∈ setups, s.Holds st := by
  obtain ⟨st, holds⟩ := exists_packed setups sound distinct
  refine ⟨st, fun s member => ?_⟩
  obtain ⟨records, relation, contents, _⟩ := holds s member
  exact ⟨records, relation, contents⟩

end Minirel
