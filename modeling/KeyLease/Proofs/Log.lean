set_option autoImplicit false

/-!
# Logs that grow at their end

Whatever runs here writes what happens to it at the end of a log, and nothing is ever taken back.
The invariants of runs speak of positions in such a log: what it tells at a position it goes on
telling (`getElem?_append_of_eq_some`), and one more entry stands at the end and nowhere else
(`getElem?_snoc_eq_some`). So what some entry has told and every entry since has left standing is
told by the new entry, or was told before and is left standing by the new entry too (`since_snoc`).
What stands at a position of its beginning stands there in the whole log, with the same before it
(`of_getElem?_take`). Read from its beginning, a log tells of its first entry and then of the others
(`forall_getElem?_cons`, `exists_getElem?_cons`).
-/

namespace KeyLease.Log

variable {α : Type} {log : List α} {e d : α} {i : Nat}

theorem getElem?_append_of_eq_some (h : log[i]? = some e) (extra : List α) :
    (log ++ extra)[i]? = some e := by
  have hlt := (List.getElem?_eq_some_iff.mp h).1
  rwa [List.getElem?_append_left hlt]

theorem getElem?_snoc_eq_some :
    (log ++ [e])[i]? = some d ↔ log[i]? = some d ∨ i = log.length ∧ d = e := by
  constructor
  · intro h
    have hlt : i < log.length + 1 := by simpa using (List.getElem?_eq_some_iff.mp h).1
    rcases Nat.lt_succ_iff_lt_or_eq.mp hlt with hold | rfl
    · rw [List.getElem?_append_left hold] at h
      exact Or.inl h
    · rw [List.getElem?_concat_length] at h
      exact Or.inr ⟨rfl, (Option.some.inj h).symm⟩
  · rintro (h | ⟨rfl, rfl⟩)
    · exact getElem?_append_of_eq_some h [e]
    · exact List.getElem?_concat_length

theorem lt_length_of_bind {β : Type} {f : α → Option β} {b : β} (h : log[i]?.bind f = some b) :
    i < log.length := by
  obtain ⟨d, hd, -⟩ := Option.bind_eq_some_iff.mp h
  exact (List.getElem?_eq_some_iff.mp hd).1

theorem since_snoc {β : Type} {f : α → Option β} {b : β} {p : α → Prop} :
    ((log ++ [e])[i]?.bind f = some b ∧ ∀ j d, i < j → (log ++ [e])[j]? = some d → p d) ↔
      (i = log.length ∧ f e = some b) ∨
        ((log[i]?.bind f = some b ∧ ∀ j d, i < j → log[j]? = some d → p d) ∧ p e) := by
  constructor
  · rintro ⟨hfirst, hsince⟩
    have hlt : i < log.length + 1 := by simpa using lt_length_of_bind hfirst
    rcases Nat.lt_succ_iff_lt_or_eq.mp hlt with hold | rfl
    · -- An older entry: what holds of all entries since holds of the new one too.
      have hget : (log ++ [e])[i]? = log[i]? := List.getElem?_append_left hold
      refine Or.inr ⟨⟨hget ▸ hfirst, fun j d hij hj => ?_⟩, ?_⟩
      · exact hsince j d hij (getElem?_append_of_eq_some hj [e])
      · exact hsince log.length e hold List.getElem?_concat_length
    · exact Or.inl ⟨rfl, by simpa using hfirst⟩
  · rintro (⟨rfl, hnew⟩ | ⟨⟨hfirst, hsince⟩, hlast⟩)
    · refine ⟨by simpa using hnew, fun j d hij hj => ?_⟩
      -- Nothing comes after the new entry.
      have hjlt := (List.getElem?_eq_some_iff.mp hj).1
      rw [List.length_append, List.length_singleton] at hjlt
      omega
    · have hold := lt_length_of_bind hfirst
      refine ⟨by rwa [List.getElem?_append_left hold], fun j d hij hj => ?_⟩
      rcases getElem?_snoc_eq_some.mp hj with hj | ⟨-, rfl⟩
      · exact hsince j d hij hj
      · exact hlast

theorem of_getElem?_take {n : Nat} (h : (log.take n)[i]? = some d) :
    log[i]? = some d ∧ (log.take n).take i = log.take i := by
  have hlt : i < (log.take n).length := (List.getElem?_eq_some_iff.mp h).1
  rw [List.length_take] at hlt
  have hin : i < n := by omega
  rw [List.getElem?_take_of_lt hin] at h
  exact ⟨h, by rw [List.take_take, Nat.min_eq_left (Nat.le_of_lt hin)]⟩

theorem forall_getElem?_cons {p : Nat → Prop} :
    (∀ n, (e :: log)[n]? = some d → p n) ↔
      (e = d → p 0) ∧ ∀ n, log[n]? = some d → p (n + 1) := by
  constructor
  · intro h
    exact ⟨fun he => h 0 (congrArg some he), fun n hn => h (n + 1) hn⟩
  · rintro ⟨hfirst, hrest⟩ n hn
    cases n with
    | zero => exact hfirst (Option.some.inj hn)
    | succ n => exact hrest n hn

theorem exists_getElem?_cons {p : Nat → Prop} :
    (∃ n, (e :: log)[n]? = some d ∧ p n) ↔
      e = d ∧ p 0 ∨ ∃ n, log[n]? = some d ∧ p (n + 1) := by
  constructor
  · rintro ⟨n, hn, hp⟩
    cases n with
    | zero => exact Or.inl ⟨Option.some.inj hn, hp⟩
    | succ n => exact Or.inr ⟨n, hn, hp⟩
  · rintro (⟨he, hp⟩ | ⟨n, hn, hp⟩)
    · exact ⟨0, congrArg some he, hp⟩
    · exact ⟨n + 1, hn, hp⟩

end KeyLease.Log
