import Mathlib.Data.List.Basic
/-!
# Items written to sessions

A worker takes items one after the other and writes each to the session that is open, and
where the session breaks it writes the item once more to the next one.  What has been
written is then in the order in which the items were taken: within a session each item at
most once, and over all sessions at most twice in a row.
-/

namespace Lib.Sessions

variable {A : Type}

def doubled (items : List A) : List A := items.flatMap fun a => [a, a]

@[simp] theorem doubled_concat (items : List A) (a : A) :
    doubled (items ++ [a]) = doubled items ++ [a, a] := by
  simp [doubled]

/-- The sessions hold the items in the order in which they were taken. -/
structure InOrder (taken : List A) (sessions : List (List A)) : Prop where
  each : ∀ session ∈ sessions, session.Sublist taken
  all : sessions.flatten.Sublist (doubled taken)

/-- An item is on its way: `done` are the items before it, and it has been written to at
most `tries` of the sessions. -/
structure Trying (done : List A) (a : A) (tries : Nat) (sessions : List (List A)) : Prop where
  each : ∀ session ∈ sessions, session.Sublist (done ++ [a])
  all : sessions.flatten.Sublist (doubled done ++ List.replicate tries a)

structure Ready (done : List A) (a : A) (tries : Nat) (sessions : List (List A)) : Prop
    extends Trying done a tries sessions where
  last : ∀ session, sessions.getLast? = some session → session.Sublist done

variable {done taken : List A} {a : A} {tries : Nat} {sessions : List (List A)}
  {session : List A}

theorem inOrder_nil : InOrder ([] : List A) [] where
  each := by simp
  all := by simp

theorem InOrder.ready (h : InOrder taken sessions) (a : A) : Ready taken a 0 sessions where
  each s hs := (h.each s hs).trans (List.sublist_append_left taken [a])
  all := by simpa using h.all
  last s hs := h.each s (List.mem_of_getLast? hs)

theorem Trying.connect (h : Trying done a tries sessions) :
    Ready done a tries (sessions ++ [[]]) where
  each := by
    intro s hs
    rcases List.mem_append.mp hs with hs | hs
    · exact h.each s hs
    · rw [List.mem_singleton.mp hs]
      exact List.nil_sublist _
  all := by simpa using h.all
  last := by
    intro s hs
    rw [List.getLast?_concat, Option.some.injEq] at hs
    subst hs
    exact List.nil_sublist _

theorem Ready.write (h : Ready done a tries (sessions ++ [session])) :
    Trying done a (tries + 1) (sessions ++ [session ++ [a]]) where
  each := by
    intro s hs
    rcases List.mem_append.mp hs with hs | hs
    · exact h.each s (List.mem_append_left _ hs)
    · rw [List.mem_singleton.mp hs]
      exact (h.last session List.getLast?_concat).append (List.Sublist.refl [a])
  all := by
    have hall := h.all.append (List.Sublist.refl [a])
    simpa [List.replicate_succ', List.append_assoc] using hall

theorem Trying.mono (h : Trying done a tries sessions) {tries' : Nat} (hle : tries ≤ tries') :
    Trying done a tries' sessions where
  each := h.each
  all := h.all.trans ((List.Sublist.refl _).append (List.replicate_sublist_replicate a |>.mpr hle))

/-- The item is done with after two tries at most. -/
theorem Trying.finish (h : Trying done a tries sessions) (htries : tries ≤ 2) :
    InOrder (done ++ [a]) sessions where
  each := h.each
  all := by
    have hall := (h.mono htries).all
    simpa using hall

theorem InOrder.append (h : InOrder taken sessions) (more : List A) :
    InOrder (taken ++ more) sessions where
  each s hs := (h.each s hs).trans (List.sublist_append_left _ _)
  all := by
    have hmore : doubled (taken ++ more) = doubled taken ++ doubled more := by
      simp [doubled]
    rw [hmore]
    exact h.all.trans (List.sublist_append_left _ _)

/-- Items that are taken once each are written to a session once each. -/
theorem InOrder.nodup (h : InOrder taken sessions) (htaken : taken.Nodup)
    (hsession : session ∈ sessions) : session.Nodup :=
  htaken.sublist (h.each session hsession)

end Lib.Sessions
