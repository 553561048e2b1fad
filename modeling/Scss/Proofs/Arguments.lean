import Scss.Value.Basic

/-!
# Cutting at commas and joining

The arguments of a call are the parts of its parameters between the commas at top level, empty parts
included.  Cutting a value and joining parts with commas undo each other.  Only the empty value stands
apart: it is what one empty part is joined to, but it has no arguments.

The loop that cuts a value goes on term by term, while its laws are about whole parts.  All of them
are proved by one induction, which takes off the part before the first comma.

## Main definitions

* `Value.commaJoin`: parts with a comma between neighbours

## Main results

* `Value.comma_induction`: induction on the parts between commas
* `Value.commaParts_of_no_comma`, `Value.commaParts_append`: the last part, and a part before a comma
* `Value.commaJoin_commaParts`, `Value.commaParts_commaJoin`: cutting and joining are inverse
* `Value.arguments_inverse`: the same for arguments, with their number
-/

namespace Scss

theorem Term.isComma_eq_true_iff {t : Term} : t.isComma = true ↔ t = .separator .comma := by
  constructor
  · intro h
    cases t with
    | separator s =>
      cases s with
      | comma => rfl
      | slash => cases h
    | _ => cases h
  · rintro rfl
    rfl

namespace Value

variable {v part : Value} {parts : List Value}

/-! ## Cutting -/

/-- A value is one part without commas, or such a part, a comma and the parts of another value. -/
@[elab_as_elim]
theorem comma_induction {motive : Value → Prop}
    (last : ∀ part, .separator .comma ∉ part → motive part)
    (append : ∀ part rest, .separator .comma ∉ part → motive rest →
      motive (part ++ .separator .comma :: rest))
    (v : Value) : motive v := by
  -- The induction is on the length, since a part of any length is taken off.
  induction hn : v.length using Nat.strongRecOn generalizing v with
  | ind n ih =>
    by_cases hmem : .separator .comma ∈ v
    · obtain ⟨part, rest, rfl, hpart⟩ := List.eq_append_cons_of_mem hmem
      refine append part rest hpart (ih rest.length ?_ rest rfl)
      rw [← hn, List.length_append, List.length_cons]
      omega
    · exact last v hmem

theorem isComma_of_notMem (h : .separator .comma ∉ v) {t : Term} (ht : t ∈ v) :
    ¬t.isComma = true := by
  rw [Term.isComma_eq_true_iff]
  rintro rfl
  exact h ht

theorem commaParts_of_no_comma (h : .separator .comma ∉ v) : commaParts v = [v] := by
  induction v with
  | nil => rfl
  | cons t rest ih =>
    rw [commaParts, if_neg (isComma_of_notMem h List.mem_cons_self),
      ih (List.not_mem_of_not_mem_cons h)]

theorem commaParts_append (h : .separator .comma ∉ v) (w : Value) :
    commaParts (v ++ .separator .comma :: w) = v :: commaParts w := by
  induction v with
  | nil => rfl
  | cons t rest ih =>
    rw [List.cons_append, commaParts, if_neg (isComma_of_notMem h List.mem_cons_self),
      ih (List.not_mem_of_not_mem_cons h)]

theorem commaParts_ne_nil (v : Value) : commaParts v ≠ [] := by
  induction v using comma_induction with
  | last part hpart =>
    rw [commaParts_of_no_comma hpart]
    exact List.cons_ne_nil _ _
  | append part rest hpart _ =>
    rw [commaParts_append hpart]
    exact List.cons_ne_nil _ _

/-- There is one part more than there are commas. -/
theorem length_commaParts (v : Value) : (commaParts v).length = v.countP Term.isComma + 1 := by
  induction v using comma_induction with
  | last part hpart =>
    rw [commaParts_of_no_comma hpart, List.countP_eq_zero.2 fun t => isComma_of_notMem hpart]
    rfl
  | append part rest hpart ih =>
    rw [commaParts_append hpart, List.length_cons, ih, List.countP_append,
      List.countP_eq_zero.2 fun t => isComma_of_notMem hpart, List.countP_cons_of_pos rfl, Nat.zero_add]

theorem comma_notMem_of_mem_commaParts (h : part ∈ commaParts v) : .separator .comma ∉ part := by
  induction v using comma_induction with
  | last v hv =>
    rw [commaParts_of_no_comma hv] at h
    rwa [List.mem_singleton.1 h]
  | append first rest hfirst ih =>
    rw [commaParts_append hfirst] at h
    rcases List.mem_cons.1 h with rfl | h
    · exact hfirst
    · exact ih h

/-- Nothing but the commas is lost, and nothing is added. -/
theorem mem_of_mem_commaParts (h : part ∈ commaParts v) {t : Term} (ht : t ∈ part) : t ∈ v := by
  induction v using comma_induction with
  | last v hv =>
    rw [commaParts_of_no_comma hv] at h
    rwa [← List.mem_singleton.1 h]
  | append first rest hfirst ih =>
    rw [commaParts_append hfirst] at h
    rcases List.mem_cons.1 h with rfl | h
    · exact List.mem_append_left _ ht
    · exact List.mem_append_right _ (List.mem_cons_of_mem _ (ih h))

/-! ## Joining -/

/-- The parts, with a comma between neighbours. -/
def commaJoin (parts : List Value) : Value :=
  List.intercalate [.separator .comma] parts

theorem commaJoin_singleton (part : Value) : commaJoin [part] = part :=
  List.intercalate_singleton

theorem commaJoin_cons (part : Value) (h : parts ≠ []) :
    commaJoin (part :: parts) = part ++ .separator .comma :: commaJoin parts := by
  rw [commaJoin, List.intercalate_cons_of_ne_nil h, List.append_assoc]
  rfl

theorem commaJoin_commaParts (v : Value) : commaJoin (commaParts v) = v := by
  induction v using comma_induction with
  | last part hpart => rw [commaParts_of_no_comma hpart, commaJoin_singleton]
  | append part rest hpart ih =>
    rw [commaParts_append hpart, commaJoin_cons part (commaParts_ne_nil rest), ih]

theorem commaParts_commaJoin (hne : parts ≠ [])
    (h : ∀ part ∈ parts, .separator .comma ∉ part) : commaParts (commaJoin parts) = parts := by
  induction parts with
  | nil => exact absurd rfl hne
  | cons part rest ih =>
    have hpart := h part List.mem_cons_self
    rcases rest with _ | ⟨next, rest⟩
    · rw [commaJoin_singleton, commaParts_of_no_comma hpart]
    · rw [commaJoin_cons part (List.cons_ne_nil next rest), commaParts_append hpart,
        ih (List.cons_ne_nil next rest) fun p hp => h p (List.mem_cons_of_mem _ hp)]

/-- Only one empty part is joined to the empty value. -/
theorem commaJoin_ne_nil (hne : parts ≠ []) (hempty : parts ≠ [[]]) : commaJoin parts ≠ [] := by
  rcases parts with _ | ⟨part, _ | ⟨next, rest⟩⟩
  · exact absurd rfl hne
  · rw [commaJoin_singleton]
    rintro rfl
    exact hempty rfl
  · rw [commaJoin_cons part (List.cons_ne_nil next rest)]
    exact List.append_ne_nil_of_right_ne_nil _ (List.cons_ne_nil _ _)

/-! ## Arguments -/

theorem arguments_of_ne_nil (h : v ≠ []) : v.arguments = v.commaParts := by
  rw [arguments, if_neg (by rwa [List.isEmpty_iff])]

/-- **Cutting into arguments is the inverse of joining.**  A value that is not empty has one argument
more than commas at top level, none of them with such a comma, and joined with commas they are the
value.  Conversely, parts without commas are the arguments of what they are joined to, unless there
are none or there is only an empty one. -/
theorem arguments_inverse :
    (∀ v : Value, v ≠ [] →
      v.arguments.length = v.countP Term.isComma + 1 ∧
      (∀ argument ∈ v.arguments, .separator .comma ∉ argument) ∧
      commaJoin v.arguments = v) ∧
    ∀ parts : List Value, parts ≠ [] → parts ≠ [[]] →
      (∀ part ∈ parts, .separator .comma ∉ part) → (commaJoin parts).arguments = parts := by
  refine ⟨fun v hv => ?_, fun parts hne hempty hparts => ?_⟩
  · rw [arguments_of_ne_nil hv]
    exact ⟨length_commaParts v, fun _ => comma_notMem_of_mem_commaParts, commaJoin_commaParts v⟩
  · rw [arguments_of_ne_nil (commaJoin_ne_nil hne hempty), commaParts_commaJoin hne hparts]

/-- An empty argument, a call with a comma of its own and another empty argument. -/
theorem arguments_inverse_nested :
    let call : Term := .call "f" [.word "a", .separator .comma, .word "b"]
    let v : Value := [.separator .comma, call, .separator .comma]
    (v.arguments.length = 3 ∧ commaJoin v.arguments = v) ∧
    (commaJoin [[], [call], []]).arguments = [[], [call], []] := by
  intro call v
  obtain ⟨hlength, -, hjoin⟩ := arguments_inverse.1 v (List.cons_ne_nil _ _)
  refine ⟨⟨hlength, hjoin⟩, arguments_inverse.2 _ (List.cons_ne_nil _ _) (by simp) ?_⟩
  simp [call]

end Value

end Scss
