import AnnotationGraph.Proofs.BodyContent
import Mathlib.Data.List.Infix

/-!
# Which lookups share a body

Bodies are kept under texts, and in the text for a lookup the names of two classes stand next to each
other with only the seam `>>#point<` between them.  A name may have the seam inside, so two lookups
can be spelled alike, and then the second is given the body that was made for the first.

* `Lookup.spelling`        the part of a key that depends on the lookup;
* `Lookup.Plain`           the seam is in neither of the two names;
* `eq_exact_of_spelling`   a plain lookup is spelled unlike all others that have bodies;
* `exists_alike`           a lookup that is not plain is spelled like another one;
* `body_context_iff`       exactly the plain lookups are never given the body of another.
-/

namespace AnnotationGraph

/-! ### Spellings -/

def Abstraction.opening : Abstraction → List Char
  | .point _ => "point<".toList
  | .member _ => "member<".toList
  | .cone _ => "cone<".toList

def Abstraction.inner : Abstraction → List Char
  | .point name => name.toList
  | .member target => target.text.toList
  | .cone name => name.toList

theorem Abstraction.toList_text (a : Abstraction) :
    a.text.toList = a.opening ++ (a.inner ++ ['>']) := by
  cases a with
  | point name =>
    show ("point<" ++ name ++ ">").toList = _
    rw [String.toList_append, String.toList_append, List.append_assoc]
    rfl
  | member target =>
    show ("member<" ++ target.text ++ ">").toList = _
    rw [String.toList_append, String.toList_append, List.append_assoc]
    rfl
  | cone name =>
    show ("cone<" ++ name ++ ">").toList = _
    rw [String.toList_append, String.toList_append, List.append_assoc]
    rfl

theorem Abstraction.exists_point_of_text {a : Abstraction} {name : ClassName} {r r' : List Char}
    (h : a.text.toList ++ r = (point name).text.toList ++ r') : ∃ other, a = .point other := by
  rw [toList_text, toList_text] at h
  cases a with
  | point other => exact ⟨other, rfl⟩
  | member target =>
    have hm : 'm' = 'p' := (List.cons.inj h).1
    exact absurd hm (by decide)
  | cone other =>
    have hc : 'c' = 'p' := (List.cons.inj h).1
    exact absurd hc (by decide)

theorem Abstraction.eq_point_of_text {a : Abstraction} {name : ClassName}
    (h : a.text.toList = (point name).text.toList) : a = .point name := by
  obtain ⟨other, rfl⟩ := @exists_point_of_text a name [] [] (by rw [h])
  rw [toList_text, toList_text] at h
  have hinner := List.append_cancel_right (List.append_cancel_left h)
  rw [String.toList_inj.1 hinner]

/-- The part of the key of a body that depends on the lookup. -/
def Lookup.spelling (l : Lookup) : List Char :=
  l.subject.text.toList ++ ('>' :: '#' :: l.sought.text.toList)

theorem Lookup.bodyKey_eq_iff (l k : Lookup) :
    l.node.bodyKey l = k.node.bodyKey k ↔ l.spelling = k.spelling := by
  have hkey : ∀ l : Lookup, (l.node.bodyKey l).toList
      = (Operation.onClass.method.text ++ "@" ++ "GetAnnotationContext<").toList ++ l.spelling := by
    intro l
    show (Operation.onClass.method.text ++ "@" ++ ("GetAnnotationContext<" ++ l.subject.text ++ ">")
      ++ "#" ++ l.sought.text).toList = _
    simp only [String.toList_append, List.append_assoc, Lookup.spelling]
    rfl
  rw [← String.toList_inj, hkey, hkey]
  exact ⟨List.append_cancel_left, fun h => by rw [h]⟩

/-! ### The seam -/

def gap : List Char := ['>', '>', '#']

/-- What stands between the two names in the spelling of a lookup of one class on another. -/
def seam : List Char := gap ++ "point<".toList

theorem Lookup.spelling_point (subject : ClassName) (sought : Abstraction) :
    (⟨.point subject, sought⟩ : Lookup).spelling
      = "point<".toList ++ (subject.toList ++ (gap ++ sought.text.toList)) := by
  show (Abstraction.point subject).text.toList ++ _ = _
  rw [Abstraction.toList_text, List.append_assoc, List.append_assoc]
  rfl

theorem Lookup.spelling_exact (subject sought : ClassName) :
    (exact subject sought).spelling
      = "point<".toList ++ (subject.toList ++ (seam ++ (sought.toList ++ ['>']))) := by
  rw [exact, spelling_point, Abstraction.toList_text, seam, List.append_assoc]
  rfl

/-- Neither of the two names has the seam inside. -/
def Lookup.Plain (l : Lookup) : Prop :=
  ∀ subject ∈ l.subject.class?, ¬ seam <:+: subject.toList ∧ ¬ seam <:+: l.sought.text.toList

instance (l : Lookup) : Decidable l.Plain :=
  inferInstanceAs (Decidable (∀ subject ∈ l.subject.class?,
    ¬ seam <:+: subject.toList ∧ ¬ seam <:+: l.sought.text.toList))

theorem gap_apart {t r r' : List Char} (h : gap ++ r = t ++ (gap ++ r')) :
    (t = [] ∧ r = r') ∨ ∃ u, t = gap ++ u ∧ r = u ++ (gap ++ r') := by
  match t with
  | [] => exact .inl ⟨rfl, List.append_cancel_left h⟩
  | [a] =>
    have h3 : '#' = '>' := (List.cons.inj (List.cons.inj (List.cons.inj h).2).2).1
    exact absurd h3 (by decide)
  | [a, b] =>
    have h3 : '#' = '>' := (List.cons.inj (List.cons.inj (List.cons.inj h).2).2).1
    exact absurd h3 (by decide)
  | a :: b :: c :: u =>
    obtain ⟨h1, h⟩ := List.cons.inj h
    obtain ⟨h2, h⟩ := List.cons.inj h
    obtain ⟨h3, h⟩ := List.cons.inj h
    exact .inr ⟨u, by rw [← h1, ← h2, ← h3]; rfl, h⟩

theorem opening_before_gap {t r r' : List Char} (h : "point<".toList ++ r = t ++ (gap ++ r')) :
    ∃ u, t = "point<".toList ++ u := by
  rcases List.append_eq_append_iff.1 h with ⟨u, hu, _⟩ | ⟨u, hu, hgap⟩
  · exact ⟨u, hu⟩
  · cases u with
    | nil => exact ⟨[], by rw [List.append_nil, hu, List.append_nil]⟩
    | cons c rest =>
      have hc : '>' = c := (List.cons.inj hgap).1
      have hmem : c ∈ "point<".toList := by
        rw [hu]
        exact List.mem_append_right t List.mem_cons_self
      rw [← hc] at hmem
      exact absurd hmem (by decide)

theorem Lookup.Plain.eq_exact_of_spelling {l : Lookup} (hl : l.Plain) {subject sought : ClassName}
    (h : l.spelling = (exact subject sought).spelling) : l = .exact subject sought := by
  obtain ⟨asked, wanted⟩ := l
  obtain ⟨name, rfl⟩ := Abstraction.exists_point_of_text h
  obtain ⟨hname, hwanted⟩ := hl name rfl
  rw [exact, spelling_point, spelling_point] at h
  rcases List.append_eq_append_iff.1 (List.append_cancel_left h) with ⟨t, ht, hrest⟩ | ⟨t, ht, hrest⟩
  · rcases gap_apart hrest with ⟨hnil, htext⟩ | ⟨u, _, htext⟩
    · rw [hnil, List.append_nil] at ht
      rw [Abstraction.eq_point_of_text htext, String.toList_inj.1 ht, exact]
    · -- the seam of the other lookup lies inside the annotation
      rw [Abstraction.toList_text (.point sought)] at htext
      exact absurd ⟨u, sought.toList ++ ['>'], by
        rw [htext, seam, List.append_assoc, List.append_assoc]
        rfl⟩ hwanted
  · rcases gap_apart hrest with ⟨hnil, htext⟩ | ⟨u, hu, htext⟩
    · rw [hnil, List.append_nil] at ht
      rw [Abstraction.eq_point_of_text htext.symm, String.toList_inj.1 ht, exact]
    · -- the seam of the other lookup lies inside the subject
      rw [Abstraction.toList_text (.point sought)] at htext
      obtain ⟨v, hv⟩ := opening_before_gap htext
      exact absurd ⟨subject.toList, v, by
        rw [ht, hu, hv, seam, List.append_assoc, List.append_assoc]⟩ hname

theorem seam_before_end {a : Abstraction} {p q : List Char} (h : p ++ seam ++ q = a.text.toList) :
    ∃ r, q = r ++ ['>'] := by
  rw [Abstraction.toList_text, ← List.append_assoc] at h
  rcases List.eq_nil_or_concat q with hnil | ⟨r, c, hq⟩
  · have hlast := congrArg List.getLast? h
    have hseam : seam.getLast? = some '<' := rfl
    rw [hnil, List.append_nil, List.getLast?_append, List.getLast?_concat, hseam] at hlast
    exact absurd (Option.some.inj hlast) (by decide)
  · rw [List.concat_eq_append] at hq
    rw [hq, ← List.append_assoc] at h
    have hc := (List.append_inj' h rfl).2
    exact ⟨r, hq.trans (by rw [hc])⟩

theorem Lookup.exists_alike {l : Lookup} (hl : ¬ l.Plain) :
    ∃ subject sought, exact subject sought ≠ l ∧ (exact subject sought).spelling = l.spelling := by
  obtain ⟨asked, wanted⟩ := l
  unfold Lookup.Plain at hl
  push Not at hl
  obtain ⟨name, hasked, hl⟩ := hl
  cases asked with
  | member target => exact nomatch hasked
  | cone other => exact nomatch hasked
  | point other =>
    have hother : other = name := Option.some.inj hasked
    subst hother
    by_cases hname : seam <:+: other.toList
    · -- the seam inside the subject is taken for the one after it
      obtain ⟨p, q, hpq⟩ := hname
      refine ⟨String.ofList p, String.ofList (q ++ gap ++ wanted.opening ++ wanted.inner), ?_, ?_⟩
      · intro h
        have hsubject := Abstraction.point.inj (Lookup.mk.inj h).1
        have hlen := congrArg String.length hsubject
        rw [String.length_ofList, ← String.length_toList, ← hpq] at hlen
        simp [seam] at hlen
      · rw [spelling_exact, spelling_point, Abstraction.toList_text, ← hpq]
        simp only [String.toList_ofList, List.append_assoc]
    · -- the seam inside the annotation is taken for the one before it
      obtain ⟨p, q, hpq⟩ := hl hname
      obtain ⟨r, rfl⟩ := seam_before_end hpq
      refine ⟨String.ofList (other.toList ++ gap ++ p), String.ofList r, ?_, ?_⟩
      · intro h
        have hsubject := Abstraction.point.inj (Lookup.mk.inj h).1
        have hlen := congrArg String.length hsubject
        rw [String.length_ofList, ← String.length_toList] at hlen
        simp [gap] at hlen
      · rw [spelling_exact, spelling_point, ← hpq]
        simp only [String.toList_ofList, List.append_assoc]

/-! ### Bodies made for other lookups -/

namespace Synthesizer

variable {h : Hierarchy} {requests : List Node} {node : Node} {id : Nat} {body : Body}

theorem exists_spelled_alike (hb : (((ofHierarchy h).run requests).body node).1 = .ok (id, body)) :
    ∃ l subject sought, node = Lookup.node l ∧
      (Lookup.exact subject sought).node ∈ requests ++ [node] ∧
      body.context = .lookup (.exact subject sought) ∧
      l.spelling = (Lookup.exact subject sought).spelling := by
  obtain ⟨before, maker, after, hsplit, _, _, l, subject, sought, hnode, hmaker, hkey, hcontext⟩ :=
    maker_of_body hb
  refine ⟨l, subject, sought, hnode, ?_, hcontext, (Lookup.bodyKey_eq_iff _ _).1 hkey⟩
  rw [hsplit, ← hmaker]
  exact List.mem_append_right before List.mem_cons_self

theorem body_of_alike (fresh : h.standIns = .empty) {l : Lookup} {subject sought : ClassName}
    (hl : (Lookup.exact subject sought).spelling = l.spelling) :
    ∃ id body,
      (((ofHierarchy h).run [(Lookup.exact subject sought).node]).body l.node).1 = .ok (id, body) ∧
      body.context = .lookup (.exact subject sought) := by
  have hn := Node.modeled?_node (Lookup.exact subject sought)
  obtain ⟨⟨id, body⟩, hb⟩ := (consistent_ofHierarchy fresh).exists_body hn
  have ha := body_answer (ofHierarchy h) (Lookup.exact subject sought).node
  rw [hb] at ha
  have hkept := ha.kept? hn
  rw [(Lookup.bodyKey_eq_iff _ _).2 hl] at hkept
  refine ⟨id, body, ?_, ?_⟩
  · rw [run_cons, run_nil, body_of_kept (Node.modeled?_node l) hkept]
  · obtain ⟨_, subject', sought', _, hmem, hcontext, _⟩ := @exists_spelled_alike h [] _ id body hb
    have hsame := (Node.mk.inj (List.mem_singleton.1 hmem)).2
    rw [hcontext, ← hsame]

/-- **Plain lookups are those that never get the body of another.**  Whatever the hierarchy and
whatever was asked for before, the body that is handed out for a plain lookup has its context: the
same subject and the same annotation.  For every other lookup there is a hierarchy and a request
after which it is handed a body with another context. -/
theorem body_context_iff (node : Node) :
    (∀ (h : Hierarchy) (requests : List Node) (id : Nat) (body : Body),
      (((ofHierarchy h).run requests).body node).1 = .ok (id, body) →
        body.context = node.context) ↔
      ∀ l, node.modeled? = some l → l.Plain := by
  constructor
  · intro hall l hn
    by_contra hl
    obtain ⟨subject, sought, hne, hspelled⟩ := Lookup.exists_alike hl
    obtain ⟨id, body, hb, hcontext⟩ := body_of_alike (h := .ofClasses []) rfl hspelled
    rw [← Node.modeled?_eq_some_iff.1 hn] at hb
    have hsame := hall _ _ id body hb
    rw [hcontext, Node.modeled?_eq_some_iff.1 hn] at hsame
    exact hne (Context.lookup.inj hsame)
  · intro hplain h requests id body hb
    obtain ⟨l, subject, sought, hnode, _, hcontext, hspelled⟩ := exists_spelled_alike hb
    have hl := hplain l (Node.modeled?_eq_some_iff.2 hnode)
    rw [hcontext, ← hl.eq_exact_of_spelling hspelled, hnode]
    rfl

def lookAlikes : Hierarchy := .ofClasses
  [ ⟨"x>>#point<y", none, [], [⟨"z", .ofList [("first", .constant (.int 1))]⟩], [], [], true⟩,
    ⟨"x", none, [], [⟨"y>>#point<z", .ofList [("second", .constant (.int 2))]⟩], [], [], true⟩,
    ⟨"z", none, [], [], [], [], true⟩,
    ⟨"y>>#point<z", none, [], [], [], [], true⟩ ]

/-- The lookup that comes second is handed the body of the first. -/
theorem body_of_lookAlikes :
    (((ofHierarchy lookAlikes).run [(Lookup.exact "x>>#point<y" "z").node]).body
      (Lookup.exact "x" "y>>#point<z").node).1.map (fun known => known.2.context)
        = .ok (.lookup (.exact "x>>#point<y" "z")) ∧
    (Lookup.exact "x" "y>>#point<z").node.context ≠ .lookup (.exact "x>>#point<y" "z") := by
  decide +kernel

end Synthesizer

end AnnotationGraph
