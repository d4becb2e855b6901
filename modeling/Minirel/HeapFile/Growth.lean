import Minirel.HeapFile.Table

/-! Insertion into a file that is being scanned. If no slot is free in front of
its last record, a record that is inserted comes last, and every scan that
stands on a record has it ahead. -/
namespace Minirel
open Enumerate

variable {st : Flat} {name : Name} {f g : FlatFile} {chain chain' : Chain} {s : HeapFileScan}
    {rid new : RID}
  {b bytes : List UInt8} {rest : List Entry}

theorem onPage_append (n : Int) (front back : List (Int × List UInt8)) :
    onPage n (front ++ back) = onPage n front ++ onPage n back := List.map_append

theorem Page.Binds.last {p q : Page} {n k : Int} {pre : Chain} (binds : p.Binds bytes k q)
    (last : Chain.entries (pre ++ [(n, q)]) = Chain.entries (pre ++ [(n, p)]) ++
      [(⟨n, k⟩, bytes)]) :
    p.after k = [] := by
  obtain ⟨before, now⟩ := binds.entries
  simp only [Chain.entries_append, Chain.entries_cons, Chain.entries_nil, List.append_nil, before,
    now, onPage_append, List.append_assoc, List.append_cancel_left_eq] at last
  by_contra nonempty
  obtain ⟨⟨j, c⟩, tail, split⟩ := List.exists_cons_of_ne_nil nonempty
  have later : k + 1 ≤ j := (mem_span.mp (split ▸ List.mem_cons_self : (j, c) ∈ p.after k)).1
  rw [split] at last
  have same : k = j ∧ bytes = c := by simpa [onPage] using (List.cons.inj last).1
  omega

/-- The records ahead on the last page. -/
theorem Page.Binds.after_last {p q : Page} {k j : Int} (binds : p.Binds bytes k q)
    (last : p.after k = []) (bound : p.binding j = some b) : q.binding j = some b ∧
      q.after j = p.after j ++ [(k, bytes)] := by
  have apart : j ≠ k := by
    rintro rfl
    exact absurd bound (by simp [binds.free])
  have bound' : q.binding j = some b := by rw [binds.binding, Function.update_of_ne apart, bound]
  have new : q.binding k = some bytes := by rw [binds.binding, Function.update_self]
  have small := (binds.invariant.binding_bounds new).2
  have small' := (binds.invariant.binding_bounds bound').2
  have before : j < k := by
    by_contra behind
    have member : (j, b) ∈ p.after k := mem_span.mpr ⟨by omega, by omega, bound⟩
    rw [last] at member
    cases member
  refine ⟨bound', ?_⟩
  have nothing : span p.binding (k + 1) 251 = [] := last
  have lower : j + 1 ≤ k := before
  rw [Page.after, Page.after, span_hit lower small new, binds.binding,
    span_update_outside (Or.inr (Int.le_refl k)),
    span_update_outside (Or.inl (Int.lt_succ k)), nothing, span_miss lower small binds.free,
    nothing, List.append_nil]

theorem HeapFileScan.On.extend (on : s.On name f chain rid b rest)
    (extended : Extended chain new bytes chain')
    (last : chain'.entries = chain.entries ++ [(new, bytes)]) (first : g.firstPage = f.firstPage) :
    s.On name g chain' rid b (rest ++ [(new, bytes)]) := by
  obtain ⟨cur, pre, p, post, split, opened, bound, rfl⟩ := on
  have opened' : s.toHeapFile.Opened name g rid.pageNo := opened.congr first
  refine ⟨cur, ?_⟩
  -- the scan is on the last page or before it
  rcases List.eq_nil_or_concat' post with rfl | ⟨post, tail, rfl⟩
  · cases extended with
    | @here pre' n p' q k _ binds =>
      obtain ⟨rfl, same⟩ := List.append_inj' split rfl
      cases same
      obtain ⟨bound', after⟩ := binds.after_last (binds.last last) bound
      exact ⟨pre', q, [], rfl, opened', bound', by simp [after, onPage]⟩
    | @behind pre' n p' q m _ single link =>
      obtain ⟨rfl, same⟩ := List.append_inj' split rfl
      cases same
      have after : (p.setNextPage link).after rid.slotNo = p.after rid.slotNo := by
        rw [Page.after, Page.binding_setNextPage, Page.after]
      refine ⟨pre', p.setNextPage link, [(m, q)], rfl, opened',
        by rw [Page.binding_setNextPage, bound], ?_⟩
      simp [after, Single.entries single, onPage]
  · rw [← List.cons_append, ← List.append_assoc] at split
    cases extended with
    | @here pre' n p' q k _ binds =>
      obtain ⟨rfl, same⟩ := List.append_inj' split rfl
      cases same
      refine ⟨pre, p, post ++ [(n, q)], by simp, opened', bound, ?_⟩
      simpa [Chain.entries_append] using last.symm
    | @behind pre' n p' q m _ single link =>
      obtain ⟨rfl, same⟩ := List.append_inj' split rfl
      cases same
      have entries : (p'.setNextPage link).entries = p'.entries := by
        rw [Page.entries, Page.binding_setNextPage, Page.entries]
      refine ⟨pre, p, post ++ [(n, p'.setNextPage link), (m, q)], by simp, opened', bound, ?_⟩
      simp [Chain.entries_append, entries, Single.entries single, onPage]

theorem HeapFileScan.Stands.extend {e : Entry} {records : List Entry}
    (stands : s.Stands name f chain e records) (extended : Extended chain new bytes chain')
    (last : chain'.entries = chain.entries ++ [(new, bytes)]) (first : g.firstPage = f.firstPage) :
    s.Stands name g chain' e (records ++ if s.matchRec bytes then [(new, bytes)] else []) := by
  obtain ⟨todo, on, rfl⟩ := stands
  refine ⟨_, on.extend extended last first, ?_⟩
  rw [List.filter_append, List.filter_singleton, Bool.cond_eq_ite]

def Appender (h : HeapFile) (st : Flat) (name : Name) (records : List Entry) : Prop :=
  ∃ f hdr chain, st.files name = some f ∧ Heap f hdr chain ∧ chain.entries = records ∧
    h.Opened name f hdr.lastPage ∧ Sealed chain records

namespace Appender
variable {st' : Flat} {h : HeapFile} {records : List Entry}

theorem congr (appender : Appender h st name records) (same : st'.files name = st.files name) :
    Appender h st' name records := by
  obtain ⟨f, hdr, chain, there, rest⟩ := appender
  exact ⟨f, hdr, chain, same.trans there, rest⟩

theorem inserter (appender : Appender h st name records) : Inserter h st name records := by
  obtain ⟨f, hdr, chain, there, heap, list, opened, _⟩ := appender
  exact ⟨f, hdr, chain, there, heap, list, opened⟩

/-- A record that is inserted comes last; scans find it there. -/
theorem insert (appender : Appender h st name records) (nonempty : 0 < bytes.length)
    (small : bytes.length ≤ 1000) :
    ∃ rid h' g, Flat.run (InsertFileScan.insertRecord h (.ofBytes bytes)) st =
        some ((.ok rid, h'), st.put name g) ∧
      Appender h' (st.put name g) name (records ++ [(rid, bytes)]) ∧
      ∀ (s : HeapFileScan) (r : Entry) (todo : List Entry), CursorOn s st name id records r todo →
        CursorOn s (st.put name g) name id (records ++ [(rid, bytes)]) r
          (todo ++ if s.matchRec bytes then [(rid, bytes)] else []) := by
  obtain ⟨f, hdr, chain, there, heap, rfl, opened, sealed⟩ := appender
  obtain ⟨rid, h', g, hdr', chain', run, heap', opened', first, extended⟩ :=
    InsertFileScan.insertRecord_extends heap there opened nonempty small
  have last : chain'.entries = chain.entries ++ [(rid, bytes)] := by
    obtain ⟨mid, rest, none, list⟩ :=
      extended.joined.behind_sealed (List.append_nil chain.entries).symm sealed
    obtain ⟨rfl, rfl⟩ := List.append_eq_nil_iff.mp none.symm
    simpa using list
  refine ⟨rid, h', g, run, ⟨g, hdr', chain', Flat.files_put .., heap', last, opened', ?_⟩, ?_⟩
  · intro e final
    rw [List.getLast?_concat, Option.some.injEq] at final
    rw [← final]
    exact extended.joined.packed
  · rintro s r todo ⟨f', hdr₀, chain₀, there₀, heap₀, list₀, stands⟩
    cases there.symm.trans there₀
    cases heap.unique heap₀
    refine ⟨g, hdr', chain', Flat.files_put .., heap', ?_, ?_⟩
    · simpa [stored] using last
    · have grown := stands.extend extended last first
      simpa [stored] using grown

end Appender

theorem TableAt.openAppender {records : List Entry} (table : TableAt st name id records [])
    (named : name ≠ []) :
    ∃ h, Flat.run (InsertFileScan.new name) st = some (.ok h, st.opened name) ∧
      Appender h (st.opened name) name records := by
  obtain ⟨f, hdr, chain, there, heap, list, sealed⟩ := table
  obtain ⟨h, new, opened⟩ := InsertFileScan.new_spec heap there named
  have same : stored (id : List UInt8 → _) records = records := by simp [stored]
  rw [List.append_nil, same] at list
  rw [same] at sealed
  exact ⟨h, new, f, hdr, chain, there, heap, list, opened, sealed⟩

/-! A scan returns the same with any fuel. -/

namespace HeapFileScan
open Program
variable {σ : Type} {handle : Handler StorageCall.Reply σ}

theorem nextPages_steady (s : HeapFileScan) : Steady handle (nextPages · s) := by
  intro fuel
  induction fuel generalizing s with
  | zero => exact .halt _
  | succ fuel ih =>
    refine .bind (.refl _) fun page => .ite (.refl _) (.bind (.refl _) fun status => .ite (.refl _) ?_)
    refine .bind (.refl _) fun status => .ite (.refl _) (.bind (.refl _) fun page => ?_)
    cases page.firstRecord with
    | ok rid => exact .refl _
    | error status => exact ih _

theorem advance_steady (s : HeapFileScan) : Steady handle (advance · s) := by
  intro fuel
  refine .bind (.refl _) fun page => ?_
  cases page.nextRecord s.curRec with
  | ok rid => exact .refl _
  | error status => exact nextPages_steady s fuel

theorem scanLoop_steady (s : HeapFileScan) : Steady handle (scanLoop · s) := by
  intro fuel
  induction fuel generalizing s with
  | zero => exact .halt _
  | succ fuel ih =>
    refine .bind (advance_steady s fuel) fun ⟨status, t⟩ =>
      .ite (.refl _) (.bind (.refl _) fun page => ?_)
    cases page.getRecord t.curRec with
    | error status => exact .refl _
    | ok rec => exact .ite (.refl _) (ih t)

theorem scanNext_steady (s : HeapFileScan) : Steady handle (scanNext · s) := by
  intro fuel
  refine .ite (.refl _) (.ite (.bind (.refl _) fun ⟨status, t⟩ => ?_) (scanLoop_steady s fuel))
  cases status with
  | some status => exact .refl _
  | none => exact scanLoop_steady t fuel

end HeapFileScan
end Minirel
