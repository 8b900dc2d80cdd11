import ImportAudit.CallLog
import Mathlib.Data.List.Nodup
import Mathlib.Data.String.Basic

/-!
# Logged arguments in any order

The arguments of a call have no order of their own: they are visited in any order, and each is
logged under its name or, if it is a long text, under a name made from it. Where two arguments
come to be logged under one name, the later one stays. So the log depends on the order of the
visit exactly if the made name of a long text is the name of another argument that does not
happen to be the length of the text.
-/

namespace ImportAudit

namespace Json

/-! ## Fields in order -/

@[simp]
theorem insertField_cons_before
    {name other : String} (before : name < other) (value kept : Json)
    (rest : List (String × Json)) :
    insertField name value ((other, kept) :: rest) = (name, value) :: (other, kept) :: rest := by
  rw [insertField, if_neg (ne_of_lt before), if_pos before]

@[simp]
theorem insertField_cons_self
    (name : String) (value kept : Json) (rest : List (String × Json)) :
    insertField name value ((name, kept) :: rest) = (name, value) :: rest := by
  rw [insertField, if_pos rfl]

@[simp]
theorem insertField_cons_behind
    {name other : String} (behind : other < name) (value kept : Json)
    (rest : List (String × Json)) :
    insertField name value ((other, kept) :: rest) =
      (other, kept) :: insertField name value rest := by
  rw [insertField, if_neg (ne_of_gt behind), if_neg (not_lt_of_gt behind)]

/-- Two fields of different names can be put in in either order. -/
theorem insertField_of_lt
    {first second : String} (order : first < second) (value other : Json)
    (fields : List (String × Json)) :
    insertField first value (insertField second other fields) =
      insertField second other (insertField first value fields) := by
  induction fields with
  | nil => simp [insertField, order]
  | cons field rest inductionHypothesis =>
    obtain ⟨name, kept⟩ := field
    rcases lt_trichotomy first name with firstBefore | rfl | firstBehind
    · -- The first field comes to the front whatever is done with the second one.
      rcases lt_trichotomy second name with before | rfl | behind
      · simp [firstBefore, order, before]
      · simp [order]
      · simp [firstBefore, order, behind]
    · simp [order]
    · have secondBehind : name < second := firstBehind.trans order
      simp [firstBehind, secondBehind, inductionHypothesis]

/-- Fields of different names are put in alike in both orders. -/
theorem insertField_comm
    {first second : String} (apart : first ≠ second) (value other : Json)
    (fields : List (String × Json)) :
    insertField first value (insertField second other fields) =
      insertField second other (insertField first value fields) := by
  rcases lt_or_gt_of_ne apart with order | order
  · exact insertField_of_lt order value other fields
  · exact (insertField_of_lt order other value fields).symm

theorem lookup_insertField
    (name : String) (value : Json) (fields : List (String × Json)) :
    (insertField name value fields).lookup name = some value := by
  induction fields with
  | nil => simp [insertField]
  | cons field rest inductionHypothesis =>
    obtain ⟨other, kept⟩ := field
    rcases lt_trichotomy name other with before | rfl | behind
    · simp [before]
    · simp
    · have apart : (name == other) = false := beq_eq_false_iff_ne.mpr (ne_of_gt behind)
      rw [insertField_cons_behind behind, List.lookup_cons, apart]
      exact inductionHypothesis

@[simp]
theorem lookup_orderFields_concat
    (fields : List (String × Json)) (name : String) (value : Json) :
    (orderFields (fields ++ [(name, value)])).lookup name = some value := by
  rw [orderFields, List.foldl_append]
  exact lookup_insertField name value (orderFields fields)

/-- The order of fields does not matter where one name has one value. -/
theorem orderFields_perm
    {fields others : List (String × Json)} (same : fields.Perm others)
    (agree : ∀ first ∈ fields, ∀ second ∈ fields, first.1 = second.1 → first = second) :
    orderFields fields = orderFields others := by
  refine same.foldl_eq' ?_ []
  rintro ⟨first, value⟩ firstMember ⟨second, other⟩ secondMember ordered
  by_cases oneName : first = second
  · have oneField := agree _ firstMember _ secondMember oneName
    rw [oneField]
  · exact insertField_comm (Ne.symm oneName) other value ordered

end Json

namespace CallLog

/-! ## Names of logged arguments -/

variable {keep : List String} {arguments : List (String × Json)}

/-- Whether a text argument is logged by its length. -/
def IsMeasured (keep : List String) (name text : String) : Prop :=
  longestText < text.utf8ByteSize ∧ name ∉ keep

theorem loggedArgument_measured
    {name text : String} (measured : IsMeasured keep name text) :
    loggedArgument keep (name, .string text) =
      (name ++ "_len", .integer text.utf8ByteSize) := by
  rw [loggedArgument, if_pos]
  simpa [IsMeasured] using measured

/-- An argument is logged as it is, unless it is a text that is logged by its length. -/
theorem loggedArgument_cases (keep : List String) (argument : String × Json) :
    loggedArgument keep argument = argument ∨
      ∃ name text, argument = (name, .string text) ∧ IsMeasured keep name text := by
  obtain ⟨name, value⟩ := argument
  cases value with
  | string text =>
    by_cases measured : IsMeasured keep name text
    · exact Or.inr ⟨name, text, rfl, measured⟩
    · refine Or.inl ?_
      rw [loggedArgument, if_neg]
      simpa [IsMeasured] using measured
  | _ => exact Or.inl rfl

/-- Whether the length of a long text and another argument are logged under one name, with
different values. -/
def Clashes (keep : List String) (arguments : List (String × Json)) : Prop :=
  ∃ name text value,
    (name, Json.string text) ∈ arguments ∧ IsMeasured keep name text ∧
      (name ++ "_len", value) ∈ arguments ∧
      loggedArgument keep (name ++ "_len", value) = (name ++ "_len", value) ∧
      value ≠ .integer text.utf8ByteSize

theorem eq_of_name
    (distinct : (arguments.map Prod.fst).Nodup) {first second : String × Json}
    (firstMember : first ∈ arguments) (secondMember : second ∈ arguments)
    (oneName : first.1 = second.1) : first = second :=
  List.inj_on_of_nodup_map distinct firstMember secondMember oneName

/-- Of two arguments that are logged under one name, one is a long text and the other has the name
of its length. -/
theorem clashes_iff (distinct : (arguments.map Prod.fst).Nodup) :
    Clashes keep arguments ↔
      ∃ first ∈ arguments, ∃ second ∈ arguments,
        (loggedArgument keep first).1 = (loggedArgument keep second).1 ∧
          loggedArgument keep first ≠ loggedArgument keep second := by
  constructor
  · rintro ⟨name, text, value, long, measured, short, plain, other⟩
    refine ⟨_, long, _, short, ?_⟩
    rw [loggedArgument_measured measured, plain]
    exact ⟨rfl, fun same => other (congrArg Prod.snd same).symm⟩
  · rintro ⟨first, firstMember, second, secondMember, oneName, apart⟩
    rcases loggedArgument_cases keep first with firstPlain | ⟨name, text, rfl, measured⟩
    · rcases loggedArgument_cases keep second with secondPlain | ⟨name, text, rfl, measured⟩
      · rw [firstPlain, secondPlain] at oneName apart
        exact absurd (eq_of_name distinct firstMember secondMember oneName) apart
      · rw [loggedArgument_measured measured, firstPlain] at oneName apart
        obtain ⟨_, value⟩ := first
        subst oneName
        refine ⟨name, text, value, secondMember, measured, firstMember, firstPlain, ?_⟩
        rintro rfl
        exact apart rfl
    · rcases loggedArgument_cases keep second with secondPlain | ⟨other, longer, rfl, also⟩
      · rw [loggedArgument_measured measured, secondPlain] at oneName apart
        obtain ⟨_, value⟩ := second
        subst oneName
        refine ⟨name, text, value, firstMember, measured, secondMember, secondPlain, ?_⟩
        rintro rfl
        exact apart rfl
      · rw [loggedArgument_measured measured, loggedArgument_measured also] at oneName
        have sameName : name = other := by simpa using oneName
        have sameArgument := eq_of_name distinct firstMember secondMember sameName
        exact absurd (congrArg (loggedArgument keep) sameArgument) apart

/-! ## Orders of the visit -/

/-- An argument that is visited last is logged. -/
theorem exists_order_logging
    (keep : List String) {argument : String × Json} (member : argument ∈ arguments) :
    ∃ order, order.Perm arguments ∧
      (sanitize keep order).lookup (loggedArgument keep argument).1 =
        some (loggedArgument keep argument).2 := by
  obtain ⟨front, back, rfl⟩ := List.append_of_mem member
  refine ⟨(front ++ back) ++ [argument], ?_, ?_⟩
  · exact (List.perm_append_singleton argument (front ++ back)).trans List.perm_middle.symm
  · rw [sanitize, List.map_append]
    exact Json.lookup_orderFields_concat _ _ _

theorem sanitize_of_not_clashes
    (distinct : (arguments.map Prod.fst).Nodup) (free : ¬ Clashes keep arguments)
    {order : List (String × Json)} (visited : order.Perm arguments) :
    sanitize keep order = sanitize keep arguments := by
  refine (Json.orderFields_perm (visited.symm.map _) ?_).symm
  intro first firstMember second secondMember oneName
  obtain ⟨argument, member, rfl⟩ := List.mem_map.mp firstMember
  obtain ⟨other, otherMember, rfl⟩ := List.mem_map.mp secondMember
  by_contra apart
  exact free ((clashes_iff distinct).mpr ⟨argument, member, other, otherMember, oneName, apart⟩)

theorem not_clashes_of_sanitize
    (distinct : (arguments.map Prod.fst).Nodup)
    (steady : ∀ order, order.Perm arguments → sanitize keep order = sanitize keep arguments) :
    ¬ Clashes keep arguments := by
  intro clashes
  obtain ⟨first, firstMember, second, secondMember, oneName, apart⟩ :=
    (clashes_iff distinct).mp clashes
  obtain ⟨order, visited, firstLogged⟩ := exists_order_logging keep firstMember
  obtain ⟨other, otherVisited, secondLogged⟩ := exists_order_logging keep secondMember
  rw [steady order visited, oneName] at firstLogged
  rw [steady other otherVisited, firstLogged] at secondLogged
  exact apart (Prod.ext oneName (Option.some.inj secondLogged))

/-- What is logged of the arguments of a call is the same in all orders of visiting them exactly
if no long text is logged under the name of another argument with another value. -/
theorem sanitize_inAnyOrder
    (keep : List String) (arguments : List (String × Json))
    (distinct : (arguments.map Prod.fst).Nodup) :
    (∀ order, order.Perm arguments → sanitize keep order = sanitize keep arguments) ↔
      ¬ Clashes keep arguments :=
  ⟨not_clashes_of_sanitize distinct, fun free _ visited =>
    sanitize_of_not_clashes distinct free visited⟩

/-- A text that is one byte too long to be logged as it is. -/
def longText : String :=
  String.ofList (List.replicate 65 'x')

def limitedSearch : List (String × Json) :=
  [("keyword", .string longText), ("limit", .integer 3)]

theorem sanitize_inAnyOrder_limitedSearch :
    (limitedSearch.map Prod.fst).Nodup ∧
      sanitize [] limitedSearch.reverse = sanitize [] limitedSearch ∧
      sanitize [] limitedSearch = [("keyword_len", .integer 65), ("limit", .integer 3)] := by
  have distinct : (limitedSearch.map Prod.fst).Nodup := by decide
  have free : ¬ Clashes [] limitedSearch := by
    simp [Clashes, limitedSearch]
  refine ⟨distinct, ?_, rfl⟩
  exact (sanitize_inAnyOrder [] limitedSearch distinct).mpr free _ (List.reverse_perm _)

/-- A call whose second argument has the name under which its first one is logged. -/
def measuredSearch : List (String × Json) :=
  [("keyword", .string longText), ("keyword_len", .integer 1)]

theorem sanitize_reverse_measuredSearch :
    (measuredSearch.map Prod.fst).Nodup ∧ measuredSearch.reverse.Perm measuredSearch ∧
      sanitize [] measuredSearch.reverse ≠ sanitize [] measuredSearch := by
  have argumentStays : sanitize [] measuredSearch = [("keyword_len", .integer 1)] := rfl
  have lengthStays : sanitize [] measuredSearch.reverse = [("keyword_len", .integer 65)] := rfl
  refine ⟨by decide, List.reverse_perm _, ?_⟩
  rw [lengthStays, argumentStays]
  simp

end CallLog

end ImportAudit
