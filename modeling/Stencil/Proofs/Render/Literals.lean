import Stencil.Proofs.Render.Sections
import Stencil.Proofs.Source.PlainTags
import Stencil.Proofs.Source.Quoting

/-!
# Texts that reach helpers

A text written as a literal reaches the helper it is written for as it is, whether it is the subject
of the helper, that of a call inside the tag, or a named argument. A source of one output tag is
compiled to one node, and what that node writes is what the call of its helper comes to.
-/

namespace Stencil

/-! ## Expressions with one text in them -/

namespace Expression

variable {b : Binding} {quote : Char} {name inner key : String}

theorem bareParam_enquoted (hquote : Literal.IsQuote quote) (s : String) :
    bareParam (Literal.enquoted quote s) = .ok (.literal (Literal.enquoted quote s) (.text s)) := by
  rw [bareParam, Literal.ofText_enquoted hquote]
  rfl

/-- A text in quotes as an argument. -/
def textParam (quote : Char) (s : String) : Param := .literal (Literal.enquoted quote s) (.text s)

theorem text_ne_empty (quote : Char) (s : String) : (textParam quote s).text ≠ "" := by
  intro hempty
  have hchars := Literal.toList_enquoted quote s
  rw [textParam, Param.text] at hempty
  rw [hempty] at hchars
  cases hchars

theorem spaced_text (quote : Char) (s : String) :
    Param.spaced (textParam quote s).text = " " ++ Literal.enquoted quote s := by
  have hne := text_ne_empty quote s
  rw [textParam, Param.text] at hne ⊢
  rw [Param.spaced, if_neg (by simpa using hne)]

/-- A text in quotes is all that is written behind the name. -/
theorem tailText_text (quote : Char) (s : String) :
    Param.tailText [textParam quote s] [] = " " ++ Literal.enquoted quote s := by
  rw [← spaced_text]
  exact String.append_empty

theorem written_subject (name : String) (quote : Char) (s : String) :
    written name [textParam quote s] [] [] = name ++ " " ++ Literal.enquoted quote s := by
  rw [Node.written_nil, tailText_text, String.append_assoc]

theorem written_call (name inner : String) (quote : Char) (s : String) :
    written name [.call none inner [textParam quote s] [] none] [] [] =
      name ++ " (" ++ inner ++ " " ++ Literal.enquoted quote s ++ ")" := by
  have hcall : (Param.call none inner [textParam quote s] [] none).text =
      "(" ++ inner ++ (" " ++ Literal.enquoted quote s) ++ ")" := by
    rw [Param.text_call, tailText_text]
  have hne : ∀ p ∈ [Param.call none inner [textParam quote s] [] none], p.text ≠ "" := by
    rw [List.forall_mem_singleton, hcall]
    intro hempty
    have hlength := congrArg String.length hempty
    simp at hlength
  apply String.toList_inj.1
  rw [Node.written_nil, String.toList_append, Param.tailText_toList hne, List.map_singleton, hcall]
  simp [Param.spacedAll]

theorem written_named (name key : String) (quote : Char) (s : String) :
    written name [] [(key, textParam quote s)] [] =
      name ++ " " ++ key ++ "=" ++ Literal.enquoted quote s := by
  apply String.toList_inj.1
  rw [Node.written_nil, String.toList_append, Param.tailText_toList (List.forall_mem_nil _)]
  simp [Param.spacedAll, Param.entryText, textParam, Param.text]

/-- A text in quotes is read as the one positional argument where nothing else follows. -/
theorem subject_read (hquote : Literal.IsQuote quote) (s : String) {inCall : Bool}
    {items rest : List Item} (h : ArgumentsRead b inCall false items {} rest) :
    ArgumentsRead b inCall false (.quoted (Literal.enquoted quote s) :: items)
      { args := [textParam quote s] } rest :=
  have hbegins : BeginsArgument (.quoted (Literal.enquoted quote s) :: items) :=
    List.cons_ne_nil _ _
  .positional hbegins (.quoted (bareParam_enquoted hquote s)) h

section

variable (hquote : Literal.IsQuote quote)
variable {s : String} (hs : Unclosed s)

include hquote hs

theorem normal_subject : Param.AllNormal [textParam quote s] [] :=
  ⟨List.forall_mem_singleton.2 (Literal.normal_enquoted hquote hs), List.forall_mem_nil _,
    List.forall_mem_nil _⟩

theorem normal_call (hinner : isPlainName inner = true) :
    Param.AllNormal [.call none inner [textParam quote s] [] none] [] :=
  ⟨List.forall_mem_singleton.2 (.call hinner (normal_subject hquote hs).args
    (List.forall_mem_nil _) (List.forall_mem_nil _)), List.forall_mem_nil _, List.forall_mem_nil _⟩

theorem normal_named (hkey : isPlainName key = true) :
    Param.AllNormal [] [(key, textParam quote s)] :=
  ⟨List.forall_mem_nil _, List.forall_mem_singleton.2 hkey,
    List.forall_mem_singleton.2 (Literal.normal_enquoted hquote hs)⟩

theorem parse_subject (hname : isPlainName name = true) :
    parse b (written name [textParam quote s] [] []) =
      .ok (name, { args := [textParam quote s] }) :=
  parse_of_items (itemsOf_written hname (normal_subject hquote hs) (List.forall_mem_nil _) _)
    (subject_read hquote s .nil)

theorem parse_call (hname : isPlainName name = true) (hinner : isPlainName inner = true) :
    parse b (written name [.call none inner [textParam quote s] [] none] [] []) =
      .ok (name, { args :=
        [.call (some b.place) inner [textParam quote s] [] (b.helperOf inner)] }) := by
  have hbegins : BeginsArgument [.openParen, .word inner, .quoted (Literal.enquoted quote s),
      .closeParen] := List.cons_ne_nil _ _
  exact parse_of_items (itemsOf_written hname (normal_call hquote hs hinner)
    (List.forall_mem_nil _) _) (.positional hbegins (.call (subject_read hquote s .closed)) .nil)

theorem parse_named (hname : isPlainName name = true) (hkey : isPlainName key = true) :
    parse b (written name [] [(key, textParam quote s)] []) =
      .ok (name, { hash := [(key, textParam quote s)] }) :=
  parse_of_items (itemsOf_written hname (normal_named hquote hs hkey) (List.forall_mem_nil _) _)
    (.hash (.quoted (bareParam_enquoted hquote s)) .nil)

end

end Expression

/-! ## Sources of one output tag -/

/-- A source of one plain tag is compiled to one output node. -/
theorem Template.ofSource_plainTag (helperOf : String → Option Helper) (file : String)
    {expression name : String} {found : Location → Arguments}
    (hlegible : Token.Legible (.of .plain expression))
    (hparse : ∀ place, Expression.parse ⟨place, helperOf⟩ expression = .ok (name, found place))
    (hparams : ∀ place, (found place).blockParams = []) :
    ∃ place, ofSource helperOf .standard file (Delimiters.standard.enclose expression) = .ok {
      name := file, place := some ⟨file, 1, 1⟩,
      root := [.output (some place) .plain
        ⟨name, (found place).args, (found place).hash, helperOf name⟩ .standard] } := by
  have hsource : (Delimiters.standard.enclose expression).toList =
      Token.writtenAll [.of .plain expression] := by
    rw [Token.writtenAll, List.flatMap_singleton]
    exact Node.enclose_toList (by decide) (List.append_nil _).symm
  obtain ⟨tokens, htokens, hmap⟩ := Token.ofSource_written file
    (List.forall_mem_singleton.2 hlegible) (.singleton _) hsource
  obtain ⟨t, rfl, ht⟩ := List.map_eq_singleton_iff.1 hmap
  obtain ⟨hkind, hvalue, hmarks⟩ := Node.Reader.eq_of_unplaced ht
  exact ofSource_of_tokens hkind hvalue hmarks htokens hparse hparams

/-- What an output tag in two braces does with a value: null writes nothing. -/
def writePlain (e : Engine) (value : Render Value) : Render Unit := do
  let value ← value
  if value.isNull then pure () else Render.emit (← outputText e .plain value)

/-- A template, rendered anywhere, writes what the given step comes to at the place of its tag, and
blames nothing but its own places for its failures. -/
def Template.Writes (t : Template) (e : Engine)
    (value : Option Location → Renderer → Scope → Render Value) : Prop :=
  ∃ place, ∀ depth scope, renderFragment e (depth + 1) t.fragment scope =
    Render.located t.place
      (Render.located place (writePlain e (value place (renderFragment e depth) scope)))

theorem Template.writes_output {e : Engine} {t : Template} {place : Option Location}
    {call : Invocation} {marks : Delimiters}
    {value : Option Location → Renderer → Scope → Render Value}
    (hroot : t.root = [.output place .plain call marks])
    (hvalue : ∀ render scope,
      outputValue e render scope .plain (call.placed place) marks = value place render scope) :
    t.Writes e value := by
  refine ⟨place, fun depth scope => ?_⟩
  have hnodes : t.fragment.nodes = [.output place .plain call marks] := hroot
  have hplace : t.fragment.place = t.place := rfl
  rw [renderFragment, hnodes, hplace, defineInlines, defineInlines, renderNodes, renderNodes,
    renderNode, renderOutput, hvalue, writePlain, bind_pure_unit, pure_bind]
  · rintro _ _ _ _ ⟨⟩

theorem Template.writes_tag {e : Engine} {t : Template} {place : Option Location}
    {call : Invocation} {marks : Delimiters} (hroot : t.root = [.output place .plain call marks]) :
    t.Writes e fun place render scope =>
      outputValue e render scope .plain (call.placed place) marks :=
  writes_output hroot fun _ _ => rfl

/-! ## What reaches the helper -/

/-- What a helper is told that has no positional argument behind its subject. -/
def Call.ofTag (name : String) (tag : TagKind) (scope : Scope) (hash : Bindings) (arity : Nat) :
    Call :=
  { helper := name, tag, scope, params := [], hash, blockParams := [], arity }

/-- A text that is written as a literal in the tag at a place. -/
def Value.writtenText (s : String) (place : Option Location) (slots : List Slot) : Value :=
  .text ⟨s, .written place slots⟩

/-- A transformer leaves a text alone, wherever it comes from. -/
def Transformer.KeepsText (t : Transformer) (s : String) : Prop :=
  ∀ label origin, t.apply label (.text ⟨s, origin⟩) = .text ⟨s, origin⟩

section

variable {e : Engine} {render : Renderer} {scope : Scope} {helper inner : Helper} {marks : Delimiters}
  {quote : Char} {s : String} {place : Option Location}

theorem transform_text (hkeeps : e.transformer.KeepsText s) (slots : List Slot) :
    transform e (.writtenText s place slots) =
      Render.freshLabel >>= fun _ => pure (.writtenText s place slots) := by
  unfold transform
  simp only [Value.writtenText, hkeeps _ _]

theorem argument_text (slots : List Slot) :
    argument e render scope ((Expression.textParam quote s).placed place slots) =
      pure (.writtenText s place slots) := by
  simp only [Expression.textParam, Param.placed, argument]
  rfl

theorem outputValue_subject (hkeeps : e.transformer.KeepsText s) (name : String) :
    outputValue e render scope .plain
        (Invocation.placed ⟨name, [Expression.textParam quote s], [], some helper⟩ place) marks = (do
      let _ ← Render.freshLabel
      invoke e render helper (.writtenText s place [.positional 0]) (.ofTag name .plain scope [] 1)
        { hasSink := true }) := by
  unfold outputValue
  simp only [Invocation.placed, Param.placedArgs, Param.placedHash, List.length_nil, subjectOf,
    argument_text, callOf, List.drop, arguments, namedArguments, pure_bind, transform_text hkeeps,
    bind_assoc]
  rfl

theorem outputValue_call (hkeeps : e.transformer.KeepsText s) (name called : String)
    (at_ : Option Location) :
    outputValue e render scope .plain (Invocation.placed ⟨name,
        [.call at_ called [Expression.textParam quote s] [] (some inner)], [], some helper⟩ place)
        marks = (do
      let _ ← Render.freshLabel
      let answered ← invoke e render inner (.writtenText s place [.positional 0, .positional 0])
        (.ofTag called .call scope [] 1) { hasSink := false }
      let subject ← transform e answered
      invoke e render helper subject (.ofTag name .plain scope [] 1) { hasSink := true }) := by
  unfold outputValue
  simp only [Invocation.placed, Param.placedArgs, Param.placedHash, Param.placed, List.length_nil,
    subjectOf, argument, argument_text, Engine.helperFor, callOf, List.drop, arguments,
    namedArguments, pure_bind, transform_text hkeeps, bind_assoc]
  rfl

theorem outputValue_named (name key : String) :
    outputValue e render scope .plain
        (Invocation.placed ⟨name, [], [(key, Expression.textParam quote s)], some helper⟩ place)
        marks = (do
      let subject ← transform e scope.here.model
      invoke e render helper subject
        (.ofTag name .plain scope [(key, .writtenText s place [.named 0])] 0)
        { hasSink := true }) := by
  unfold outputValue
  simp only [Invocation.placed, Param.placedArgs, Param.placedHash, List.length_nil, subjectOf,
    argument_text, callOf, List.drop, arguments, namedArguments, pure_bind]
  rfl

end

/-- Any text can be passed as a literal. Written between quotes of either kind, it is one item of an
expression and read as itself. The helper of a tag, or of a call in it, acts on it as its subject, and
a helper with a named argument is told it as the value: what the helper asks for is answered, and the
tag writes what it comes to. -/
theorem literal_reaches_helper {e : Engine} {quote : Char} {s name called key : String}
    {helper inner : Helper} (hquote : Literal.IsQuote quote) (hs : Unclosed s)
    (hname : isPlainName name = true) (helse : name ≠ "else") (hcalled : isPlainName called = true)
    (hkey : isPlainName key = true) (hhelper : e.registry.lookup name = some helper)
    (hinner : e.registry.lookup called = some inner) (hkeeps : e.transformer.KeepsText s)
    (file : String) :
    Item.scan (Literal.enquoted quote s).toList = .ok [.quoted (Literal.enquoted quote s)] ∧
    Param.ofText (Literal.enquoted quote s) =
      .ok (.literal (Literal.enquoted quote s) (.text s)) ∧
    (∃ t, e.parse .standard file
        (Delimiters.standard.enclose (name ++ " " ++ Literal.enquoted quote s)) = .ok t ∧
      t.Writes e fun place render scope => do
        let _ ← Render.freshLabel
        let told := Call.ofTag name .plain scope [] 1
        Render.mapFailure (Failure.fromHelper name)
          ((helper.act (.writtenText s place [.positional 0]) told).perform
            (answer e render told { hasSink := true }))) ∧
    (∃ t, e.parse .standard file
        (Delimiters.standard.enclose
          (name ++ " (" ++ called ++ " " ++ Literal.enquoted quote s ++ ")")) = .ok t ∧
      t.Writes e fun place render scope => do
        let _ ← Render.freshLabel
        let asked := Call.ofTag called .call scope [] 1
        let answered ← Render.mapFailure (Failure.fromHelper called)
          ((inner.act (.writtenText s place [.positional 0, .positional 0]) asked).perform
            (answer e render asked { hasSink := false }))
        let subject ← transform e answered
        let told := Call.ofTag name .plain scope [] 1
        Render.mapFailure (Failure.fromHelper name)
          ((helper.act subject told).perform (answer e render told { hasSink := true }))) ∧
    (∃ t, e.parse .standard file
        (Delimiters.standard.enclose
          (name ++ " " ++ key ++ "=" ++ Literal.enquoted quote s)) = .ok t ∧
      t.Writes e fun place render scope => do
        let subject ← transform e scope.here.model
        let told := Call.ofTag name .plain scope [(key, .writtenText s place [.named 0])] 0
        Render.mapFailure (Failure.fromHelper name)
          ((helper.act subject told).perform (answer e render told { hasSink := true }))) := by
  have hlegible {args : List Param} {hash : HashParams} (h : Param.AllNormal args hash) :
      Token.Legible (.of .plain (Expression.written name args hash [])) :=
    Node.legible_expression rfl hname h (List.forall_mem_nil _) fun _ => ⟨rfl, helse⟩
  refine ⟨Literal.scan_enquoted hquote s, Literal.ofText_enquoted hquote s, ?_, ?_, ?_⟩
  · obtain ⟨place, ht⟩ := Template.ofSource_plainTag e.registry.lookup file
      (hlegible (Expression.normal_subject hquote hs))
      (fun _ => Expression.parse_subject hquote hs hname) fun _ => rfl
    rw [Expression.written_subject] at ht
    refine ⟨_, ht, Template.writes_output rfl fun render scope => ?_⟩
    rw [hhelper]
    exact outputValue_subject hkeeps name
  · obtain ⟨place, ht⟩ := Template.ofSource_plainTag e.registry.lookup file
      (hlegible (Expression.normal_call hquote hs hcalled))
      (fun _ => Expression.parse_call hquote hs hname hcalled) fun _ => rfl
    rw [Expression.written_call] at ht
    refine ⟨_, ht, Template.writes_output rfl fun render scope => ?_⟩
    rw [hhelper]
    dsimp only
    rw [hinner]
    exact outputValue_call hkeeps name called _
  · obtain ⟨place, ht⟩ := Template.ofSource_plainTag e.registry.lookup file
      (hlegible (Expression.normal_named hquote hs hkey))
      (fun _ => Expression.parse_named hquote hs hname hkey) fun _ => rfl
    rw [Expression.written_named] at ht
    refine ⟨_, ht, Template.writes_output rfl fun render scope => ?_⟩
    rw [hhelper]
    exact outputValue_named name key

/-- Two backslashes, a quote, a pipe, a line feed and a bracket reach the helper `if`. -/
theorem literal_reaches_helper_if :
    Unclosed "a\\\\\"|\n]" ∧
    ∃ t, Engine.standard.parse .standard "page"
        "\x7b\x7bif \"a\\\\\\\\\\\"|\n]\"\x7d\x7d" = .ok t ∧
      t.Writes Engine.standard (fun place render scope => do
        let _ ← Render.freshLabel
        let told := Call.ofTag "if" .plain scope [] 1
        Render.mapFailure (Failure.fromHelper "if")
          ((Builtin.branch.act (.writtenText "a\\\\\"|\n]" place [.positional 0]) told).perform
            (answer Engine.standard render told { hasSink := true }))) := by
  have hs : Unclosed "a\\\\\"|\n]" := .of_isChain (by decide)
  have hname : isPlainName "if" = true := by decide
  have hcalled : isPlainName "lookup" = true := by decide
  have hkey : isPlainName "k" = true := by decide
  have hhelper : Engine.standard.registry.lookup "if" = some ⟨0, .builtin .branch⟩ := rfl
  have hinner : Engine.standard.registry.lookup "lookup" = some ⟨0, .builtin .lookup⟩ := rfl
  have hwritten : Delimiters.standard.enclose
      ("if" ++ " " ++ Literal.enquoted '"' "a\\\\\"|\n]") =
        "\x7b\x7bif \"a\\\\\\\\\\\"|\n]\"\x7d\x7d" := by decide
  obtain ⟨-, -, htag, -⟩ := literal_reaches_helper (.inl rfl) hs hname (by decide) hcalled hkey
    hhelper hinner (fun _ _ => rfl) "page"
  rw [hwritten] at htag
  exact ⟨hs, htag⟩

end Stencil
