import Reckoner.CommandLine.Session
import Reckoner.Proofs.Interpretation.Standard

set_option autoImplicit false

/-!
# One session at once or line by line

A registry that answers every text with a line keeps a session going to its end: each
expression that is not blank is answered by its own line, whatever stands before and
after it.  So expressions on the command line and the same expressions typed in line by
line are answered by the same lines, as far as the conversation goes.
-/

namespace Reckoner.CommandLine

/-! ## Single expressions -/

/-- A registry that answers every text, and the lines that display its answers. -/
def Replies (r : Registry) (reply : String → String) : Prop :=
  ∀ e, ∃ a, r.answer e = .ok a ∧ a.display e = .ok (reply e)

/-- An expression without a value. -/
def Fails (r : Registry) (e : String) : Prop := ∃ message, r.answer e = .ok (.error message)

variable {r : Registry} {reply : String → String}

theorem shown_append (es fs : List Event) (ending : Except Interruption Nat) :
    (Transcript.mk (es ++ fs) ending).shown = es.filter (!·.isRecord) ++ fs.filter (!·.isRecord) :=
  List.filter_append ..

/-- An expression is answered by its line. -/
theorem respond_of_replies (h : Replies r reply) (e : String) :
    (respond r e).shown = [.line (reply e)] ∧
      ∃ status, (respond r e).ending = .ok status ∧ status ≤ 1 ∧ (status = 1 ↔ Fails r e) := by
  obtain ⟨a, hanswer, hdisplay⟩ := h e
  have hrecords : ∀ records : List Log.Record,
      (records.map Event.record).filter (!·.isRecord) = [] := by
    intro records
    simp [Event.isRecord]
  have hanswer' : (r.interpret e).answer = .ok a := hanswer
  simp only [respond, hanswer', hdisplay, shown_append, hrecords]
  refine ⟨rfl, ?_⟩
  cases a with
  | value x => exact ⟨0, rfl, by decide, by simp [Fails, hanswer]⟩
  | error message => exact ⟨1, rfl, by decide, by simp [Fails, hanswer]⟩

/-! ## Whole sessions -/

/-- What follows a response that does not break off. -/
theorem followedBy_of_ending {first : Transcript} {status : Nat} (h : first.ending = .ok status)
    (rest : Nat → Transcript) :
    (first.followedBy rest).shown = first.shown ++ (rest status).shown ∧
      (first.followedBy rest).ending = (rest status).ending := by
  simp only [Transcript.followedBy, h, shown_append, and_true]
  rfl

/-- All expressions but the blank ones are answered, and the status tells whether one of
them has no value. -/
theorem oneShot_of_replies (h : Replies r reply) (es : List String) :
    (oneShot r es).shown = (es.filter (!Text.isBlank ·)).map (.line <| reply ·) ∧
      ∃ status, (oneShot r es).ending = .ok status ∧ status ≤ 1 ∧
        (status = 1 ↔ ∃ e ∈ es, Text.isBlank e = false ∧ Fails r e) := by
  induction es with
  | nil => exact ⟨rfl, 0, rfl, by decide, by simp⟩
  | cons e es ih =>
    obtain ⟨hshown, status, hending, hle, hstatus⟩ := ih
    rw [oneShot]
    cases hblank : Text.isBlank e with
    | true =>
      rw [if_pos rfl, List.filter_cons_of_neg (by simp [hblank])]
      exact ⟨hshown, status, hending, hle, by simp [hstatus, hblank]⟩
    | false =>
      obtain ⟨hfirst, status', hending', hle', hstatus'⟩ := respond_of_replies h e
      obtain ⟨hshown', hboth⟩ := followedBy_of_ending hending' (oneShot r es).withStatus
      rw [if_neg (by decide), List.filter_cons_of_pos (by simp [hblank]), hshown', hboth, hfirst]
      refine ⟨congrArg (List.cons _) hshown, max status' status, ?_, by omega, ?_⟩
      · simp only [Transcript.withStatus, hending]
        rfl
      · have hmax : max status' status = 1 ↔ status' = 1 ∨ status = 1 := by omega
        simp [hmax, hstatus, hstatus', hblank]

/-- What is seen of a conversation over lines none of which ends it: a prompt before each
line, and before the end of the input. -/
def conversation (reply : String → String) (es : List String) : List Event :=
  (es.flatMap fun e => .prompt :: if Text.isBlank e then [] else [.line (reply e)]) ++ [.prompt]

theorem conversation_cons (reply : String → String) (e : String) (es : List String) :
    conversation reply (e :: es) =
      .prompt :: ((if Text.isBlank e then [] else [.line (reply e)]) ++ conversation reply es) := by
  simp [conversation]

/-- Apart from the prompts, a conversation answers all expressions but the blank ones. -/
theorem filterMap_conversation (reply : String → String) (es : List String) :
    (conversation reply es).filterMap Event.text? =
      (es.filter (!Text.isBlank ·)).map reply := by
  induction es with
  | nil => rfl
  | cons e es ih =>
    rw [conversation_cons, List.filterMap_cons_none rfl, List.filterMap_append, ih]
    cases hblank : Text.isBlank e <;> simp [hblank, Event.text?]

/-- A conversation goes on to the first line that ends it. -/
theorem converse_of_replies (h : Replies r reply) (es : List String) :
    (converse r es).shown = conversation reply (es.takeWhile (Text.trim · != exitCommand)) ∧
      (converse r es).ending = .ok 0 := by
  induction es with
  | nil => exact ⟨rfl, rfl⟩
  | cons e es ih =>
    obtain ⟨hshown, hending⟩ := ih
    by_cases hquit : Text.trim e = exitCommand
    · have hread : Reading.ofLine e = .quit := by simp [Reading.ofLine, hquit]
      rw [converse, hread, List.takeWhile_cons_of_neg (by simp [hquit])]
      exact ⟨rfl, rfl⟩
    · rw [List.takeWhile_cons_of_pos (by simp [hquit]), conversation_cons, converse]
      cases hblank : Text.isBlank e with
      | true =>
        have hread : Reading.ofLine e = .skip := by simp [Reading.ofLine, hquit, hblank]
        rw [hread]
        exact ⟨congrArg (List.cons _) hshown, hending⟩
      | false =>
        have hread : Reading.ofLine e = .expression := by simp [Reading.ofLine, hquit, hblank]
        obtain ⟨hfirst, status, hending', -⟩ := respond_of_replies h e
        obtain ⟨hshown', hboth⟩ := followedBy_of_ending hending' fun _ => converse r es
        rw [hread]
        refine ⟨congrArg (List.cons _) ?_, hboth.trans hending⟩
        exact hshown'.trans (by rw [hfirst, hshown]; rfl)

/-- The session in which the expressions of the command line are typed in instead, one to
a line. -/
def typedIn (o : Options) : Transcript :=
  session { o with expressions := [] } (Text.unlines o.expressions)

/-- The records of the standard definitions are not seen. -/
theorem filter_opening : opening.filter (!·.isRecord) = [] := by
  simp [opening, Event.isRecord]

/-- Nor is the record of the status. -/
theorem finished_shown (t : Transcript) :
    t.finished.shown = t.shown ∧ t.finished.ending = t.ending := by
  cases hending : t.ending <;>
    simp [Transcript.finished, hending, Transcript.shown, Event.isRecord]

/-- A session that starts is seen as its course, and ends with it. -/
theorem session_course {o : Options} (hobstacle : o.obstacle? = none) (input : String) :
    (session o input).shown = (o.course input).shown ∧
      (session o input).ending = (o.course input).ending := by
  simp only [session, hobstacle, shown_append, filter_opening, List.nil_append, and_true]
  rfl

/-- Expressions on the command line make a one-shot session. -/
theorem session_oneShot {o : Options} (hobstacle : o.obstacle? = none)
    (hsome : o.expressions ≠ []) (input : String) :
    (session o input).shown = (oneShot Standard.registry.freeze o.expressions).shown ∧
      (session o input).ending = (oneShot Standard.registry.freeze o.expressions).ending := by
  have hcourse : o.course input = (oneShot Standard.registry.freeze o.expressions).finished := by
    simp [Options.course, hsome]
  obtain ⟨hshown, hending⟩ := session_course hobstacle input
  rw [hshown, hending, hcourse]
  exact finished_shown _

/-- Expressions that are typed in make a conversation. -/
theorem typedIn_converse {o : Options} (hobstacle : o.obstacle? = none)
    (hlines : ∀ e ∈ o.expressions, Text.IsLine e) :
    (typedIn o).shown = (converse Standard.registry.freeze o.expressions).shown ∧
      (typedIn o).ending = (converse Standard.registry.freeze o.expressions).ending := by
  have hobstacle' : Options.obstacle? { o with expressions := [] } = none := hobstacle
  have hcourse : Options.course { o with expressions := [] } (Text.unlines o.expressions) =
      converse Standard.registry.freeze o.expressions := by
    simp [Options.course, Text.lines_unlines hlines]
  rw [← hcourse]
  exact session_course hobstacle' _

/-- There is a line for every text, which displays the answer to it under the standard
definitions.  Expressions on the command line are answered by their lines, the blank ones
being passed over, and the status tells whether one of them has no value.  Typed in, they
are answered by the same lines up to the first one that says `q`, with a prompt before each
line that is read, and the status is zero. -/
theorem session_and_typedIn_agree :
    ∃ reply : String → String, Replies Standard.registry.freeze reply ∧
      ∀ o : Options, o.obstacle? = none → o.expressions ≠ [] →
        (∀ e ∈ o.expressions, Text.IsLine e) →
        (∀ input,
          (session o input).shown =
            (o.expressions.filter (!Text.isBlank ·)).map (.line <| reply ·) ∧
          ∃ status, (session o input).ending = .ok status ∧ status ≤ 1 ∧
            (status = 1 ↔ ∃ e ∈ o.expressions, Text.isBlank e = false ∧
              Fails Standard.registry.freeze e)) ∧
        (typedIn o).shown =
          conversation reply (o.expressions.takeWhile (Text.trim · != "q")) ∧
        (typedIn o).lines =
          ((o.expressions.takeWhile (Text.trim · != "q")).filter (!Text.isBlank ·)).map reply ∧
        (typedIn o).ending = .ok 0 := by
  choose reply hreply using Standard.exists_line
  refine ⟨reply, hreply, fun o hobstacle hsome hlines => ⟨fun input => ?_, ?_⟩⟩
  · obtain ⟨hshown, hending⟩ := session_oneShot hobstacle hsome input
    rw [hshown, hending]
    exact oneShot_of_replies hreply o.expressions
  · obtain ⟨hshown, hending⟩ := converse_of_replies hreply o.expressions
    obtain ⟨hshown', hending'⟩ := typedIn_converse hobstacle hlines
    rw [Transcript.lines, hshown', hending', hshown]
    exact ⟨rfl, filterMap_conversation reply _, hending⟩

/-- A parenthesis that is not closed, a blank and `q`.  On the command line `q` is a name
that is not defined; typed in it ends the conversation. -/
theorem session_and_typedIn_unclosed :
    ∃ reply : String → String,
      reply "(" = "Error: Mismatched parens: '(' at index 0 is never closed" ∧
      (session { Options.default with expressions := ["(", " ", "q"] } "").shown =
        [.line (reply "("), .line (reply "q")] ∧
      (session { Options.default with expressions := ["(", " ", "q"] } "").ending = .ok 1 ∧
      (typedIn { Options.default with expressions := ["(", " ", "q"] }).shown =
        [.prompt, .line (reply "("), .prompt, .prompt] ∧
      (typedIn { Options.default with expressions := ["(", " ", "q"] }).ending = .ok 0 := by
  obtain ⟨reply, hreply, hagree⟩ := session_and_typedIn_agree
  obtain ⟨hsession, htyped, -, hend⟩ :=
    hagree { Options.default with expressions := ["(", " ", "q"] } (by decide +kernel)
      (by decide) (by decide +kernel)
  obtain ⟨hshown, status, hending, -, hstatus⟩ := hsession ""
  have htokens : Token.tokenize "(" = .ok [⟨.openParen, 0⟩] :=
    Token.scan_chars (l := ⟨[⟨[], .openParen⟩], []⟩) (by decide +kernel) 0
  have hanswer : Standard.registry.freeze.answer "(" =
      .ok (.error (StructureError.unclosed 0).message) :=
    Registry.answer_of_structural htokens rfl
  have hone : status = 1 := hstatus.mpr ⟨"(", by decide, by decide +kernel, _, hanswer⟩
  refine ⟨reply, ?_, hshown.trans ?_, hone ▸ hending, htyped.trans ?_, hend⟩
  · obtain ⟨a, ha, hdisplay⟩ := hreply "("
    rw [hanswer] at ha
    cases ha
    exact (Except.ok.inj hdisplay).symm
  · have hfilter : ["(", " ", "q"].filter (!Text.isBlank ·) = ["(", "q"] := by decide +kernel
    exact congrArg (List.map _) hfilter
  · have htake : ["(", " ", "q"].takeWhile (Text.trim · != "q") = ["(", " "] := by decide +kernel
    have hfirst : Text.isBlank "(" = false := by decide +kernel
    have hsecond : Text.isBlank " " = true := by decide +kernel
    simp [htake, conversation, hfirst, hsecond]

end Reckoner.CommandLine
