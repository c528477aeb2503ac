import Mathlib.Data.List.Basic
import Mathlib.Data.Nat.Find
import Mathlib.Order.WellFounded
/-!
# Paging by a cursor

A client asks for the rows after a cursor, page by page.  The cursor becomes the key of
the last row of the page, and the client stops at an empty page or at one that is not
full.  Against a sorted list the pages are the list.  Whatever the answers are, the
cursor rises, the client stops and no key is collected twice exactly when the full pages
end higher and higher and no key is on two rows.
-/

namespace Lib.Paging

variable {K R : Type}

/-- The answer to a request: its number, the cursor, and the page or a failure. -/
abbrev Answers (K R : Type) := Nat → K → Option (List R)

structure Pager (K R : Type) where
  requests : Nat := 0
  cursor : K
  all : List R := []

section

variable (key : R → K) (size : Nat) (answers : Answers K R)

/-- One request.  On the left is the end: the rows, or a failure. -/
def Pager.ask (p : Pager K R) : Option (List R) ⊕ Pager K R :=
  match answers p.requests p.cursor with
  | none => .inl none
  | some page =>
      match page.getLast? with
      | none => .inl (some p.all)
      | some last =>
          let p' : Pager K R := ⟨p.requests + 1, key last, p.all ++ page⟩
          if page.length < size then .inl (some p'.all) else .inr p'

/-- The requests until the end, as many as the fuel allows. -/
def run : Nat → Pager K R → Option (Option (List R))
  | 0, _ => none
  | fuel + 1, p =>
      match p.ask key size answers with
      | .inl result => some result
      | .inr p' => run fuel p'

def after (start : Pager K R) : Nat → Option (Pager K R)
  | 0 => some start
  | k + 1 => (after start k).bind fun p => (p.ask key size answers).getRight?

end

variable {key : R → K} {size : Nat} {answers : Answers K R} {p : Pager K R} {page : List R}
  {last : R}

theorem ask_of_nil (h : answers p.requests p.cursor = some []) :
    p.ask key size answers = .inl (some p.all) := by
  unfold Pager.ask
  rw [h]
  rfl

theorem ask_of_short (h : answers p.requests p.cursor = some page)
    (hlast : page.getLast? = some last) (hshort : page.length < size) :
    p.ask key size answers = .inl (some (p.all ++ page)) := by
  unfold Pager.ask
  rw [h]
  dsimp only
  rw [hlast]
  dsimp only
  rw [if_pos hshort]

theorem ask_of_full (h : answers p.requests p.cursor = some page)
    (hlast : page.getLast? = some last) (hfull : ¬page.length < size) :
    p.ask key size answers = .inr ⟨p.requests + 1, key last, p.all ++ page⟩ := by
  unfold Pager.ask
  rw [h]
  dsimp only
  rw [hlast]
  dsimp only
  rw [if_neg hfull]

/-! ## A sorted list -/

section Sorted

variable {O : Type} [LinearOrder O] (rank : K → O)

def rowsAfter (key : R → K) (cursor : K) (rows : List R) : List R :=
  rows.filter fun row => rank cursor < rank (key row)

variable {rows : List R} (hsorted : rows.Pairwise fun a b => rank (key a) < rank (key b))

include hsorted in
/-- After the last row of a page come the rows past the page. -/
theorem rowsAfter_getLast {k : Nat} (hlast : (rows.take k).getLast? = some last) :
    rowsAfter rank key (key last) rows = rows.drop k := by
  have hsplit := List.take_append_drop k rows
  rw [← hsplit, List.pairwise_append] at hsorted
  obtain ⟨htake, -, hcross⟩ := hsorted
  obtain ⟨init, hinit⟩ := List.getLast?_eq_some_iff.mp hlast
  rw [hinit, List.pairwise_append] at htake
  have hmem : last ∈ rows.take k := List.mem_of_getLast? hlast
  have hpage : (rows.take k).filter (fun row => rank (key last) < rank (key row)) = [] := by
    rw [List.filter_eq_nil_iff]
    intro row hrow hlt
    rw [hinit] at hrow
    rcases List.mem_append.mp hrow with hbefore | hself
    · have hbelow := htake.2.2 row hbefore last (List.mem_singleton.mpr rfl)
      exact lt_asymm hbelow (of_decide_eq_true hlt)
    · rw [List.mem_singleton.mp hself] at hlt
      exact lt_irrefl _ (of_decide_eq_true hlt)
  have hrest : (rows.drop k).filter (fun row => rank (key last) < rank (key row)) =
      rows.drop k := by
    rw [List.filter_eq_self]
    exact fun row hrow => decide_eq_true (hcross last hmem row hrow)
  unfold rowsAfter
  conv_lhs => rw [← hsplit]
  rw [List.filter_append, hpage, hrest, List.nil_append]

theorem rowsAfter_rowsAfter {cursor cursor' : K} (hle : rank cursor ≤ rank cursor')
    (rows : List R) :
    rowsAfter rank key cursor' (rowsAfter rank key cursor rows) =
      rowsAfter rank key cursor' rows := by
  unfold rowsAfter
  rw [List.filter_filter]
  refine List.filter_congr fun row _ => ?_
  by_cases h : rank cursor' < rank (key row)
  · simp [h, hle.trans_lt h]
  · simp [h]

/-- The pages of a sorted list are its rows after the start. -/
theorem run_sorted (hsize : 0 < size) {answers : Answers K R}
    (hsorted : rows.Pairwise fun a b => rank (key a) < rank (key b))
    (hanswers : ∀ k cursor, answers k cursor = some ((rowsAfter rank key cursor rows).take size))
    (p : Pager K R) :
    ∃ fuel, run key size answers fuel p = some (some (p.all ++ rowsAfter rank key p.cursor rows)) := by
  -- on the number of rows that are left
  generalize hn : (rowsAfter rank key p.cursor rows).length = n
  induction n using Nat.strong_induction_on generalizing p with
  | _ n ih =>
      have hrest : (rowsAfter rank key p.cursor rows).Pairwise
          fun a b => rank (key a) < rank (key b) := hsorted.filter _
      cases hlast : ((rowsAfter rank key p.cursor rows).take size).getLast? with
      | none =>
          have hnil := List.getLast?_eq_none_iff.mp hlast
          have hempty : rowsAfter rank key p.cursor rows = [] :=
            (List.take_eq_nil_iff.mp hnil).resolve_left (by omega)
          refine ⟨1, ?_⟩
          rw [run, ask_of_nil (by rw [hanswers, hnil]), hempty, List.append_nil]
      | some last =>
          have hafter := rowsAfter_getLast rank hrest hlast
          by_cases hfull : ((rowsAfter rank key p.cursor rows).take size).length < size
          · -- the last page holds all that is left
            have hall : (rowsAfter rank key p.cursor rows).take size =
                rowsAfter rank key p.cursor rows := by
              rw [List.length_take] at hfull
              exact List.take_of_length_le (by omega)
            refine ⟨1, ?_⟩
            rw [run, ask_of_short (hanswers _ _) hlast hfull, hall]
          · have hmem := List.mem_of_mem_take (List.mem_of_getLast? hlast)
            have hlt : rank p.cursor < rank (key last) :=
              of_decide_eq_true (List.mem_filter.mp hmem).2
            have hdrop : rowsAfter rank key (key last) rows =
                (rowsAfter rank key p.cursor rows).drop size := by
              rw [← rowsAfter_rowsAfter rank hlt.le rows, hafter]
            have hlength : size ≤ (rowsAfter rank key p.cursor rows).length := by
              rw [List.length_take] at hfull
              omega
            let p' : Pager K R :=
              ⟨p.requests + 1, key last, p.all ++ (rowsAfter rank key p.cursor rows).take size⟩
            obtain ⟨fuel, hrun⟩ := ih (rowsAfter rank key p'.cursor rows).length
              (by
                change (rowsAfter rank key (key last) rows).length < n
                rw [hdrop, List.length_drop]
                omega) p' rfl
            refine ⟨fuel + 1, ?_⟩
            have hask : p.ask key size answers = .inr p' := ask_of_full (hanswers _ _) hlast hfull
            rw [run, hask]
            dsimp only
            rw [hrun]
            change some (some (p.all ++ _ ++ rowsAfter rank key (key last) rows)) = _
            rw [hdrop, List.append_assoc, List.take_append_drop]

end Sorted

/-! ## Any answers -/

def cursorAt (key : R → K) (answers : Answers K R) (start : K) : Nat → K
  | 0 => start
  | k + 1 =>
      (((answers k (cursorAt key answers start k)).bind List.getLast?).map key).getD
        (cursorAt key answers start k)

def pageAt (key : R → K) (answers : Answers K R) (start : K) (k : Nat) : List R :=
  (answers k (cursorAt key answers start k)).getD []

section Pages

variable (key size answers)

def FullAt (start : K) (k : Nat) : Prop :=
  pageAt key answers start k ≠ [] ∧ size ≤ (pageAt key answers start k).length

def pagesTo (start : K) (k : Nat) : List R := (List.range k).flatMap (pageAt key answers start)

/-- Each full page ends above the one before it, and no key is on two rows. -/
structure Rising [LT K] (start : K) : Prop where
  ascends : ∀ k, (∀ i ≤ k, FullAt key size answers start i) →
    cursorAt key answers start k < cursorAt key answers start (k + 1)
  apart : ∀ k, (∀ i < k, FullAt key size answers start i) →
    ((pagesTo key answers start (k + 1)).map key).Nodup

/-- Every request ends the paging or raises the cursor, the paging ends, and no key is
collected twice on the way or in the end. -/
structure Terminating [LT K] (start : K) : Prop where
  rises : ∀ k p p', after key size answers { cursor := start } k = some p →
    p.ask key size answers = .inr p' → p.cursor < p'.cursor
  ends : ∃ fuel, (run key size answers fuel { cursor := start }).isSome
  once : ∀ k p, after key size answers { cursor := start } k = some p → (p.all.map key).Nodup
  result : ∀ fuel rows, run key size answers fuel { cursor := start } = some (some rows) →
    (rows.map key).Nodup

end Pages

variable {start : K}

theorem pagesTo_succ (start : K) (k : Nat) :
    pagesTo key answers start (k + 1) = pagesTo key answers start k ++ pageAt key answers start k := by
  unfold pagesTo
  rw [List.range_succ, List.flatMap_append, List.flatMap_singleton]

def pagerAt (key : R → K) (answers : Answers K R) (start : K) (k : Nat) : Pager K R where
  requests := k
  cursor := cursorAt key answers start k
  all := pagesTo key answers start k

theorem ask_pagerAt_full {k : Nat} (h : FullAt key size answers start k) :
    (pagerAt key answers start k).ask key size answers =
      .inr (pagerAt key answers start (k + 1)) := by
  obtain ⟨hne, hfull⟩ := h
  cases hanswer : answers k (cursorAt key answers start k) with
  | none =>
      unfold pageAt at hne
      rw [hanswer] at hne
      exact absurd rfl hne
  | some page =>
      have hpage : pageAt key answers start k = page := by
        unfold pageAt
        rw [hanswer]
        rfl
      rw [hpage] at hne hfull
      have hlast := List.getLast?_eq_some_getLast hne
      rw [ask_of_full hanswer hlast (Nat.not_lt.mpr hfull)]
      unfold pagerAt
      rw [pagesTo_succ, hpage, cursorAt, hanswer, Option.bind_some, hlast]
      rfl

theorem ask_pagerAt_last {k : Nat} (h : ¬FullAt key size answers start k) :
    ((pagerAt key answers start k).ask key size answers = .inl none ∧
        pageAt key answers start k = []) ∨
      (pagerAt key answers start k).ask key size answers =
        .inl (some (pagesTo key answers start (k + 1))) := by
  cases hanswer : answers k (cursorAt key answers start k) with
  | none =>
      left
      unfold Pager.ask pagerAt pageAt
      dsimp only
      rw [hanswer]
      exact ⟨rfl, rfl⟩
  | some page =>
      right
      have hpage : pageAt key answers start k = page := by
        unfold pageAt
        rw [hanswer]
        rfl
      rw [pagesTo_succ, hpage]
      unfold FullAt at h
      rw [hpage] at h
      cases hlast : page.getLast? with
      | none =>
          have hnil := List.getLast?_eq_none_iff.mp hlast
          subst hnil
          rw [List.append_nil]
          exact ask_of_nil hanswer
      | some last =>
          have hne : page ≠ [] := by
            rintro rfl
            nomatch hlast
          have hshort : page.length < size := Nat.lt_of_not_le fun hle => h ⟨hne, hle⟩
          exact ask_of_short hanswer hlast hshort

theorem after_eq_some_iff {k : Nat} {p : Pager K R} :
    after key size answers { cursor := start } k = some p ↔
      (∀ i < k, FullAt key size answers start i) ∧ p = pagerAt key answers start k := by
  induction k generalizing p with
  | zero =>
      rw [after, Option.some.injEq]
      constructor
      · rintro rfl
        exact ⟨nofun, rfl⟩
      · rintro ⟨-, rfl⟩
        rfl
  | succ k ih =>
      rw [after, Option.bind_eq_some_iff]
      constructor
      · rintro ⟨q, hq, hnext⟩
        obtain ⟨hbefore, rfl⟩ := ih.mp hq
        by_cases hfull : FullAt key size answers start k
        · rw [ask_pagerAt_full hfull, Sum.getRight?_inr, Option.some.injEq] at hnext
          refine ⟨fun i hi => ?_, hnext.symm⟩
          rcases Nat.lt_succ_iff_lt_or_eq.mp hi with hlt | rfl
          · exact hbefore i hlt
          · exact hfull
        · rcases ask_pagerAt_last hfull with ⟨hend, -⟩ | hend
          · rw [hend] at hnext
            nomatch hnext
          · rw [hend] at hnext
            nomatch hnext
      · rintro ⟨hall, rfl⟩
        refine ⟨_, ih.mpr ⟨fun i hi => hall i (Nat.lt_succ_of_lt hi), rfl⟩, ?_⟩
        rw [ask_pagerAt_full (hall k (Nat.lt_succ_self k)), Sum.getRight?_inr]

theorem after_succ (p : Pager K R) (k : Nat) :
    after key size answers p (k + 1) =
      (p.ask key size answers).getRight?.bind fun p' => after key size answers p' k := by
  induction k with
  | zero => simp [after]
  | succ k ih =>
      rw [after, ih, Option.bind_assoc]
      rfl

/-- The paging ends with the request that some pager on the way makes last. -/
theorem run_eq_some_iff {fuel : Nat} {p : Pager K R} {result : Option (List R)} :
    run key size answers fuel p = some result ↔
      ∃ k < fuel, ∃ q, after key size answers p k = some q ∧
        q.ask key size answers = .inl result := by
  induction fuel generalizing p with
  | zero => simp [run]
  | succ fuel ih =>
      rw [run]
      cases hask : p.ask key size answers with
      | inl last =>
          dsimp only
          rw [Option.some.injEq]
          constructor
          · rintro rfl
            exact ⟨0, Nat.succ_pos fuel, p, rfl, hask⟩
          · rintro ⟨k, -, q, hafter, hend⟩
            cases k with
            | zero =>
                cases hafter
                rw [hask, Sum.inl.injEq] at hend
                exact hend
            | succ k =>
                rw [after_succ, hask] at hafter
                nomatch hafter
      | inr p' =>
          dsimp only
          rw [ih]
          constructor
          · rintro ⟨k, hk, q, hafter, hend⟩
            refine ⟨k + 1, Nat.succ_lt_succ hk, q, ?_, hend⟩
            rw [after_succ, hask]
            exact hafter
          · rintro ⟨k, hk, q, hafter, hend⟩
            cases k with
            | zero =>
                cases hafter
                rw [hask] at hend
                nomatch hend
            | succ k =>
                rw [after_succ, hask] at hafter
                exact ⟨k, Nat.lt_of_succ_lt_succ hk, q, hafter, hend⟩

theorem exists_last [LT K] (hwf : WellFounded fun a b : K => b < a)
    (hascends : ∀ k, (∀ i ≤ k, FullAt key size answers start i) →
      cursorAt key answers start k < cursorAt key answers start (k + 1)) :
    ∃ k, ¬FullAt key size answers start k := by
  by_contra hall
  have hfull : ∀ k, FullAt key size answers start k := by
    intro k
    by_contra hnot
    exact hall ⟨k, hnot⟩
  obtain ⟨-, ⟨k, rfl⟩, hmax⟩ :=
    hwf.has_min (Set.range (cursorAt key answers start)) ⟨_, 0, rfl⟩
  exact hmax _ ⟨k + 1, rfl⟩ (hascends k fun i _ => hfull i)

theorem Terminating.rising [LT K] (h : Terminating key size answers start) :
    Rising key size answers start := by
  refine ⟨fun k hfull => ?_, fun k hbefore => ?_⟩
  · have hafter : after key size answers { cursor := start } k =
        some (pagerAt key answers start k) :=
      after_eq_some_iff.mpr ⟨fun i hi => hfull i hi.le, rfl⟩
    exact h.rises k _ _ hafter (ask_pagerAt_full (hfull k le_rfl))
  · have hafter : after key size answers { cursor := start } k =
        some (pagerAt key answers start k) := after_eq_some_iff.mpr ⟨hbefore, rfl⟩
    by_cases hfull : FullAt key size answers start k
    · have hnext : after key size answers { cursor := start } (k + 1) =
          some (pagerAt key answers start (k + 1)) := by
        rw [after, hafter, Option.bind_some, ask_pagerAt_full hfull, Sum.getRight?_inr]
      exact h.once (k + 1) _ hnext
    · rcases ask_pagerAt_last hfull with ⟨-, hpage⟩ | hend
      · -- a request that failed has no rows
        rw [pagesTo_succ, hpage, List.append_nil]
        exact h.once k _ hafter
      · exact h.result (k + 1) _
          (run_eq_some_iff.mpr ⟨k, Nat.lt_succ_self k, _, hafter, hend⟩)

namespace Rising

variable [LT K] (h : Rising key size answers start)

include h

theorem rises {k : Nat} {p p' : Pager K R}
    (hafter : after key size answers { cursor := start } k = some p)
    (hask : p.ask key size answers = .inr p') : p.cursor < p'.cursor := by
  obtain ⟨hbefore, rfl⟩ := after_eq_some_iff.mp hafter
  by_cases hfull : FullAt key size answers start k
  · rw [ask_pagerAt_full hfull, Sum.inr.injEq] at hask
    subst hask
    refine h.ascends k fun i hi => ?_
    rcases Nat.lt_or_eq_of_le hi with hlt | rfl
    · exact hbefore i hlt
    · exact hfull
  · rcases ask_pagerAt_last hfull with ⟨hend, -⟩ | hend
    · rw [hend] at hask
      nomatch hask
    · rw [hend] at hask
      nomatch hask

theorem ends (hwf : WellFounded fun a b : K => b < a) :
    ∃ fuel, (run key size answers fuel { cursor := start }).isSome := by
  classical
  have hlast := exists_last hwf h.ascends
  let k := Nat.find hlast
  have hbefore : ∀ i < k, FullAt key size answers start i := fun i hi =>
    Classical.not_not.mp (Nat.find_min hlast hi)
  have hafter : after key size answers { cursor := start } k =
      some (pagerAt key answers start k) := after_eq_some_iff.mpr ⟨hbefore, rfl⟩
  refine ⟨k + 1, ?_⟩
  rw [Option.isSome_iff_exists]
  rcases ask_pagerAt_last (Nat.find_spec hlast) with ⟨hend, -⟩ | hend
  · exact ⟨_, run_eq_some_iff.mpr ⟨k, Nat.lt_succ_self k, _, hafter, hend⟩⟩
  · exact ⟨_, run_eq_some_iff.mpr ⟨k, Nat.lt_succ_self k, _, hafter, hend⟩⟩

theorem once {k : Nat} {p : Pager K R}
    (hafter : after key size answers { cursor := start } k = some p) :
    (p.all.map key).Nodup := by
  obtain ⟨hbefore, rfl⟩ := after_eq_some_iff.mp hafter
  have hapart := h.apart k hbefore
  rw [pagesTo_succ, List.map_append] at hapart
  exact hapart.sublist (List.sublist_append_left _ _)

theorem result {fuel : Nat} {rows : List R}
    (hrun : run key size answers fuel { cursor := start } = some (some rows)) :
    (rows.map key).Nodup := by
  obtain ⟨k, -, q, hafter, hend⟩ := run_eq_some_iff.mp hrun
  obtain ⟨hbefore, rfl⟩ := after_eq_some_iff.mp hafter
  by_cases hfull : FullAt key size answers start k
  · rw [ask_pagerAt_full hfull] at hend
    nomatch hend
  · rcases ask_pagerAt_last hfull with ⟨hfailed, -⟩ | hdone
    · rw [hfailed] at hend
      nomatch hend
    · rw [hdone, Sum.inl.injEq, Option.some.injEq] at hend
      subst hend
      exact h.apart k hbefore

end Rising

/-- Whatever the answers are, the paging is sound exactly when its full pages rise and no
key is on two rows. -/
theorem terminating_iff [LT K] (hwf : WellFounded fun a b : K => b < a)
    (answers : Answers K R) (start : K) :
    Terminating key size answers start ↔ Rising key size answers start := by
  constructor
  · exact Terminating.rising
  · intro h
    exact ⟨fun _ _ _ => h.rises, h.ends hwf, fun _ _ => h.once, fun _ _ => h.result⟩

theorem run_unique {p : Pager K R} {fuel fuel' : Nat} {result result' : Option (List R)}
    (h : run key size answers fuel p = some result)
    (h' : run key size answers fuel' p = some result') : result = result' := by
  induction fuel generalizing p fuel' with
  | zero => nomatch h
  | succ fuel ih =>
      cases fuel' with
      | zero => nomatch h'
      | succ fuel' =>
          rw [run] at h h'
          cases hask : p.ask key size answers with
          | inl last =>
              rw [hask] at h h'
              cases h
              cases h'
              rfl
          | inr p' =>
              rw [hask] at h h'
              exact ih h h'

/-! ## Windows of a list -/

def window (offset limit : Nat) (rows : List R) : List R := (rows.drop offset).take limit

/-- A page of two lists one after the other is a page of the first, and what is left of the
limit is taken from the second. -/
theorem window_append (offset limit : Nat) (front back : List R) :
    window offset limit (front ++ back) =
      window offset limit front ++
        window (offset - front.length) (limit - (window offset limit front).length) back := by
  have hleft : limit - (window offset limit front).length =
      limit - (front.drop offset).length := by
    unfold window
    rw [List.length_take]
    omega
  rw [hleft]
  unfold window
  rw [List.drop_append, List.take_append]

theorem map_window {S : Type} (f : R → S) (offset limit : Nat) (rows : List R) :
    (window offset limit rows).map f = window offset limit (rows.map f) := by
  unfold window
  rw [List.map_take, List.map_drop]

/-- The pages one after the other are the list from its first row on. -/
theorem flatMap_window (limit n : Nat) (rows : List R) :
    (List.range n).flatMap (fun k => window (k * limit) limit rows) = rows.take (n * limit) := by
  induction n with
  | zero => simp
  | succ n ih =>
      rw [List.range_succ, List.flatMap_append, ih, List.flatMap_singleton, Nat.succ_mul,
        List.take_add]
      rfl

end Lib.Paging
