import DnsFanout.Proofs.NameComparison
import DnsFanout.Request

/-! Which replies match a query. A reply that does echoes the query: its number, and one question
that is the query's. The names of the two questions may differ in one way: the query asks for a
`*`, and the reply is about the name below which it stands. -/

namespace DnsFanout

namespace Request

variable {r : Request} {reply : Message} {asked answered : Question}

/-- The reply is a response with the query's number, and its only question is like the query's
first but for the name. -/
structure Echoes (r : Request) (reply : Message) (asked answered : Question) : Prop where
  question : r.question? = some asked
  questions : reply.questions = [answered]
  id : reply.id = r.message.id
  response : reply.response = true
  type : answered.type = asked.type
  questionClass : answered.questionClass = asked.questionClass

/-- The reply echoes the query, and the names of the questions are so related. -/
def IsEchoedBy (r : Request) (names : Name → Name → Prop) (reply : Message) : Prop :=
  ∃ asked answered, r.Echoes reply asked answered ∧ names answered.name asked.name

theorem matchesReply_eq_true_iff :
    r.matchesReply reply = true ↔ r.IsEchoedBy (fun a b => a.agrees b = true) reply := by
  unfold matchesReply
  constructor
  · intro h
    split at h
    · next asked answered hasked hanswered =>
      simp only [Bool.and_eq_true, beq_iff_eq] at h
      obtain ⟨⟨⟨⟨hid, hresponse⟩, htype⟩, hclass⟩, hname⟩ := h
      exact ⟨asked, answered, ⟨hasked, hanswered, hid, hresponse, htype, hclass⟩, hname⟩
    · cases h
  · rintro ⟨asked, answered, echoes, hname⟩
    simp [echoes.question, echoes.questions, echoes.id, echoes.response, echoes.type,
      echoes.questionClass, hname]

theorem IsEchoedBy.congr {names names' : Name → Name → Prop}
    (h : ∀ asked, r.question? = some asked → ∀ a, names a asked.name ↔ names' a asked.name) :
    r.IsEchoedBy names reply ↔ r.IsEchoedBy names' reply :=
  exists_congr fun asked => exists_congr fun answered =>
    and_congr_right fun echoes => h asked echoes.question answered.name

/-- A reply matches exactly if it echoes the query under the same name, or under the name right
below which the query has a `*`; the latter are not the same. A query for any other name is
matched by the replies under the same name only. -/
theorem matchesReply_exact (r : Request) (reply : Message) :
    (r.matchesReply reply = true ↔
      r.IsEchoedBy Name.Same reply ∨ r.IsEchoedBy Name.Unstars reply) ∧
    ¬ (r.IsEchoedBy Name.Same reply ∧ r.IsEchoedBy Name.Unstars reply) ∧
    ((∀ asked, r.question? = some asked → asked.name.starred = false) →
      (r.matchesReply reply = true ↔ r.IsEchoedBy Name.Same reply)) := by
  have hmatches : r.matchesReply reply = true ↔
      r.IsEchoedBy (fun a b => a.Same b ∨ a.Unstars b) reply :=
    matchesReply_eq_true_iff.trans (IsEchoedBy.congr fun _ _ _ => Name.agrees_iff)
  refine ⟨?_, ?_, fun hplain => ?_⟩
  · simp only [hmatches, IsEchoedBy, and_or_left, exists_or]
  · rintro ⟨⟨asked, answered, echoes, hsame⟩, ⟨asked', answered', echoes', hunstars⟩⟩
    obtain rfl := Option.some.inj (echoes.question.symm.trans echoes'.question)
    obtain rfl := List.singleton_inj.mp (echoes.questions.symm.trans echoes'.questions)
    exact hunstars.not_same hsame
  · refine hmatches.trans (IsEchoedBy.congr fun asked hasked a => or_iff_left fun hunstars => ?_)
    exact absurd (hplain asked hasked) (by simp [hunstars.starred])

end Request

namespace Rehearsal

def asking (labels : List Label) (h : wireSize labels ≤ 255) : Request :=
  ⟨{ id := 4242, questions := [⟨⟨labels, true, h⟩, RecordType.a, 1⟩] }, .datagram, none⟩

def echo (labels : List Label) (h : wireSize labels ≤ 255) : Message where
  id := 4242
  response := true
  questions := [⟨⟨labels, false, h⟩, RecordType.a, 1⟩]

/-- A query for `org` is matched by a reply about `ORG`, not by one about `*.org`. -/
theorem matches_capital :
    (∀ asked, (asking [orgLabel] (by decide)).question? = some asked →
      asked.name.starred = false) ∧
    (asking [orgLabel] (by decide)).matchesReply (echo [capitalLabel] (by decide)) = true ∧
    (asking [orgLabel] (by decide)).IsEchoedBy Name.Same (echo [capitalLabel] (by decide)) ∧
    (asking [orgLabel] (by decide)).matchesReply (echo [starLabel, orgLabel] (by decide)) = false ∧
    ¬ (asking [orgLabel] (by decide)).IsEchoedBy Name.Same
      (echo [starLabel, orgLabel] (by decide)) := by
  have hplain : ∀ asked, (asking [orgLabel] (by decide)).question? = some asked →
      asked.name.starred = false := by
    rintro _ ⟨⟩
    rfl
  have hexact (reply : Message) := (Request.matchesReply_exact _ reply).2.2 hplain
  have hcapital : (asking [orgLabel] (by decide)).matchesReply
      (echo [capitalLabel] (by decide)) = true := by decide
  have hstar : (asking [orgLabel] (by decide)).matchesReply
      (echo [starLabel, orgLabel] (by decide)) = false := by decide
  refine ⟨hplain, hcapital, (hexact _).mp hcapital, hstar, fun h => ?_⟩
  rw [(hexact _).mpr h] at hstar
  cases hstar

/-- A query for `*.org` is matched by a reply about `org`, another name. -/
theorem matches_unstarred :
    (asking [starLabel, orgLabel] (by decide)).matchesReply (echo [orgLabel] (by decide)) = true ∧
    ¬ (asking [starLabel, orgLabel] (by decide)).IsEchoedBy Name.Same
      (echo [orgLabel] (by decide)) := by
  refine ⟨by decide, ?_⟩
  rintro ⟨asked, answered, echoes, hsame⟩
  obtain rfl := Option.some.inj echoes.question
  obtain rfl := List.singleton_inj.mp echoes.questions
  exact absurd (List.Forall₂.length_eq hsame) (by decide)

end Rehearsal

end DnsFanout
