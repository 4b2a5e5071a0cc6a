import Mathlib.Data.List.Nodup
import Mathlib.Data.List.Sublists

/-!
# Linearizable histories

Callers call operations on an object and get replies, with any overlap between the calls. A
history is linearized by an order of its operations in which the object, going through them one
after the other, gives the replies that were given, and in which an operation that returned
before another one was called comes first. A history that grows by calls, by operations that
take effect between their call and their return, and by returns, stays linearized.
-/

namespace Linearization

variable {S O R : Type*}

/-- What the callers of an object see: the call of an operation, and its return with a reply. -/
inductive CallEvent (O R : Type*)
  | invoke (id : ℕ) (op : O)
  | respond (id : ℕ) (reply : R)
deriving DecidableEq

/-- The operation that returns. -/
def CallEvent.returning : CallEvent O R → Option ℕ
  | .invoke _ _ => none
  | .respond id _ => some id

/-- An operation that has taken effect, with its reply. -/
structure Done (O R : Type*) where
  id : ℕ
  op : O
  reply : R

/-- The object goes through the operations one after the other and replies as they say. -/
inductive Legal (perform : S → O → S × R) (s : S) : List (Done O R) → S → Prop
  | nil : Legal perform s [] s
  | snoc {done : List (Done O R)} {t : S} (h : Legal perform s done t) (id : ℕ) (op : O) :
      Legal perform s (done ++ [⟨id, op, (perform t op).2⟩]) (perform t op).1

/-- The first operation returned before the second was called. -/
def Precedes (history : List (CallEvent O R)) (a b : ℕ) : Prop :=
  ∃ reply op, [.respond a reply, .invoke b op].Sublist history

/-- The order linearizes the history and takes the object from one state to the other. -/
structure Linearizes (perform : S → O → S × R) (s : S) (history : List (CallEvent O R)) (done : List (Done O R))
    (t : S) : Prop where
  legal : Legal perform s done t
  once : (done.map Done.id).Nodup
  invoked : ∀ d ∈ done, .invoke d.id d.op ∈ history
  responded : ∀ id reply, .respond id reply ∈ history → ∃ op, ⟨id, op, reply⟩ ∈ done
  returned : (history.filterMap CallEvent.returning).Nodup
  realTime : ∀ a b, Precedes history a b → b ∈ done.map Done.id → [a, b].Sublist (done.map Done.id)

/-- What the operations keep of the object holds whenever one of them takes effect, and where they only
lead upwards, each takes effect below the last state. -/
theorem Legal.invariant {perform : S → O → S × R} {s t : S} {done : List (Done O R)} {P : O → Prop} {I : S → Prop}
    {r : S → S → Prop} (htrans : ∀ u v w, r u v → r v w → r u w) (hinit : I s)
    (hstep : ∀ u op, I u → P op → I (perform u op).1 ∧ r u (perform u op).1) (h : Legal perform s done t)
    (hops : ∀ d ∈ done, P d.op) : I t ∧ ∀ d ∈ done, ∃ u, I u ∧ r u t ∧ d.reply = (perform u d.op).2 := by
  induction h with
  | nil => exact ⟨hinit, fun d hd => absurd hd List.not_mem_nil⟩
  | @snoc done t _ id op ih =>
    obtain ⟨ht, hreplies⟩ := ih fun d hd => hops d (List.mem_append_left _ hd)
    have hop : P op := hops _ (List.mem_append_right _ (List.mem_singleton_self _))
    obtain ⟨hnext, hup⟩ := hstep t op ht hop
    refine ⟨hnext, fun d hd => ?_⟩
    cases List.mem_append.mp hd with
    | inl hold =>
      obtain ⟨u, hu, hbelow, hreply⟩ := hreplies d hold
      exact ⟨u, hu, htrans _ _ _ hbelow hup, hreply⟩
    | inr hlast =>
      rw [List.mem_singleton.mp hlast]
      exact ⟨t, ht, hup, rfl⟩

/-- The history of an object that nobody has called. -/
theorem linearizes_nil (perform : S → O → S × R) (s : S) : Linearizes perform s [] [] s where
  legal := .nil
  once := List.nodup_nil
  invoked _ hd := absurd hd List.not_mem_nil
  responded _ _ h := absurd h List.not_mem_nil
  returned := List.nodup_nil
  realTime _ _ _ hb := absurd hb List.not_mem_nil

section

variable {perform : S → O → S × R} {s t : S} {history : List (CallEvent O R)} {done : List (Done O R)}

/-- Every reply is that of an operation that was called, at an object of which what the operations keep
holds and that is below the last one. -/
theorem Linearizes.replies (h : Linearizes perform s history done t) {P : O → Prop} {I : S → Prop}
    {r : S → S → Prop} (htrans : ∀ u v w, r u v → r v w → r u w) (hinit : I s)
    (hstep : ∀ u op, I u → P op → I (perform u op).1 ∧ r u (perform u op).1)
    (hcalls : ∀ id op, .invoke id op ∈ history → P op) {id : ℕ} {reply : R} (hreply : .respond id reply ∈ history) :
    ∃ op u, P op ∧ I u ∧ r u t ∧ reply = (perform u op).2 := by
  have hops : ∀ d ∈ done, P d.op := fun d hd => hcalls d.id d.op (h.invoked d hd)
  obtain ⟨op, hdone⟩ := h.responded id reply hreply
  obtain ⟨u, hu, hbelow, heq⟩ := (h.legal.invariant htrans hinit hstep hops).2 _ hdone
  exact ⟨op, u, hops _ hdone, hu, hbelow, heq⟩

/-- An earlier operation has returned. -/
theorem Precedes.returned {a b : ℕ} (h : Precedes history a b) : ∃ reply, .respond a reply ∈ history := by
  obtain ⟨reply, op, hsub⟩ := h
  exact ⟨reply, hsub.subset List.mem_cons_self⟩

/-- What is before the last action and ends otherwise. -/
theorem sublist_of_append_singleton {x y z : CallEvent O R} (h : [x, y].Sublist (history ++ [z])) (hne : y ≠ z) :
    [x, y].Sublist history := by
  obtain ⟨front, back, hsplit, hfront, hback⟩ := List.sublist_append_iff.mp h
  cases List.sublist_singleton.mp hback with
  | inl hnone =>
    rw [hnone, List.append_nil] at hsplit
    exact hsplit ▸ hfront
  | inr hlast =>
    rw [hlast] at hsplit
    have hlasts := congrArg List.getLast? hsplit
    rw [List.getLast?_append_cons, List.getLast?_singleton] at hlasts
    exact absurd (Option.some.inj hlasts) hne

/-- A call adds no precedence but over itself. -/
theorem Precedes.of_invoke {a b id : ℕ} {op : O} (h : Precedes (history ++ [.invoke id op]) a b) (hb : b ≠ id) :
    Precedes history a b := by
  obtain ⟨reply, op', hsub⟩ := h
  refine ⟨reply, op', sublist_of_append_singleton hsub fun heq => hb ?_⟩
  exact (CallEvent.invoke.inj heq).1

/-- A return adds no precedence over a call that was made before. -/
theorem Precedes.of_respond {a b id : ℕ} {reply : R} (h : Precedes (history ++ [.respond id reply]) a b) :
    Precedes history a b := by
  obtain ⟨reply', op, hsub⟩ := h
  exact ⟨reply', op, sublist_of_append_singleton hsub (by simp)⟩

/-- A new operation is called. -/
theorem Linearizes.invoke (h : Linearizes perform s history done t) {id : ℕ} (op : O)
    (hnew : id ∉ done.map Done.id) : Linearizes perform s (history ++ [.invoke id op]) done t where
  legal := h.legal
  once := h.once
  invoked d hd := List.mem_append_left _ (h.invoked d hd)
  responded id' reply hmem := by
    refine h.responded id' reply ((List.mem_append.mp hmem).resolve_right fun hlast => ?_)
    have heq := List.mem_singleton.mp hlast
    contradiction
  returned := by
    rw [List.filterMap_append]
    exact (List.append_nil _).symm ▸ h.returned
  realTime a b hprecedes hb := h.realTime a b (hprecedes.of_invoke fun heq => hnew (heq ▸ hb)) hb

/-- An operation that was called takes effect. -/
theorem Linearizes.effect (h : Linearizes perform s history done t) {id : ℕ} {op : O}
    (hcalled : .invoke id op ∈ history) (hnew : id ∉ done.map Done.id) :
    Linearizes perform s history (done ++ [⟨id, op, (perform t op).2⟩]) (perform t op).1 where
  legal := h.legal.snoc id op
  once := by
    rw [List.map_append]
    exact h.once.append (List.nodup_singleton _) (by simpa using hnew)
  invoked := List.forall_mem_append.mpr ⟨h.invoked, List.forall_mem_singleton.mpr hcalled⟩
  responded id' reply hmem := by
    obtain ⟨op', hdone⟩ := h.responded id' reply hmem
    exact ⟨op', List.mem_append_left _ hdone⟩
  returned := h.returned
  realTime a b hprecedes hb := by
    rw [List.map_append] at hb ⊢
    cases List.mem_append.mp hb with
    | inl hold => exact (h.realTime a b hprecedes hold).trans (List.sublist_append_left _ _)
    | inr hlast =>
      obtain ⟨reply, hreturned⟩ := hprecedes.returned
      obtain ⟨op', hdone⟩ := h.responded a reply hreturned
      have ha : [a].Sublist (done.map Done.id) := List.singleton_sublist.mpr (List.mem_map_of_mem hdone)
      rw [List.mem_singleton.mp hlast]
      exact ha.append (List.Sublist.refl _)

/-- An operation that has taken effect returns its reply. -/
theorem Linearizes.respond (h : Linearizes perform s history done t) {id : ℕ} {op : O} {reply : R}
    (hdone : ⟨id, op, reply⟩ ∈ done) (hopen : ∀ reply', .respond id reply' ∉ history) :
    Linearizes perform s (history ++ [.respond id reply]) done t where
  legal := h.legal
  once := h.once
  invoked d hd := List.mem_append_left _ (h.invoked d hd)
  responded id' reply' hmem := by
    cases List.mem_append.mp hmem with
    | inl hold => exact h.responded id' reply' hold
    | inr hlast =>
      obtain ⟨rfl, rfl⟩ := CallEvent.respond.inj (List.mem_singleton.mp hlast)
      exact ⟨op, hdone⟩
  returned := by
    have hnew : id ∉ history.filterMap CallEvent.returning := by
      rintro hmem
      obtain ⟨action, haction, hid⟩ := List.mem_filterMap.mp hmem
      cases action with
      | invoke id' op' => contradiction
      | respond id' reply' =>
        obtain rfl := Option.some.inj hid
        exact hopen reply' haction
    rw [List.filterMap_append]
    exact h.returned.append (List.nodup_singleton _) (by simpa [CallEvent.returning] using hnew)
  realTime a b hprecedes := h.realTime a b hprecedes.of_respond

/-- An operation that is called, takes effect and returns at once. -/
theorem Linearizes.atomic (h : Linearizes perform s history done t) {id : ℕ} (op : O)
    (hnew : id ∉ done.map Done.id) (hopen : ∀ reply', .respond id reply' ∉ history) :
    Linearizes perform s (history ++ [.invoke id op] ++ [.respond id (perform t op).2])
      (done ++ [⟨id, op, (perform t op).2⟩]) (perform t op).1 := by
  have hcalled : .invoke id op ∈ history ++ [.invoke id op] := List.mem_append_right _ (List.mem_singleton_self _)
  refine ((h.invoke op hnew).effect hcalled hnew).respond (List.mem_append_right _ (List.mem_singleton_self _)) ?_
  intro reply' hmem
  refine hopen reply' ((List.mem_append.mp hmem).resolve_right fun hlast => ?_)
  have heq := List.mem_singleton.mp hlast
  contradiction

end

end Linearization
