import Kopete.ChatWindow.NameColors
import Kopete.Libkopete.MessageEscape
import Kopete.Lib.Template
import Mathlib

/-!
# Chat window — style keywords

`ChatMessagePart::formatStyleKeywords` makes the HTML of a message from a template of the chat
style: it replaces the keywords one after the other, over the whole text. Three of them have
an argument and are looked for by a regular expression, in a loop that goes on where it has
put something in. What locale, icon loader, settings and text library return is a parameter.

Main results:

* `run_step` — one step of the function fills in its keywords;
* `formatStyleKeywords_of_clean` — the template is filled in where no keyword comes up but in
  it.
-/

namespace ChatMessagePart

open Html (Text latin1)
open History (toHtmlEscaped)
open Template (Token Cell fill OnlyAt OnlyBehind)

/-- `Kopete::Contact`, with the display name of its metacontact if it has one that is not the
user's own, and the name of its protocol unless that is null. -/
structure Contact where
  displayName : Text
  metaContactName : Option Text
  contactId : Text
  protocolName : Option Text
  pluginIcon : Text
  pluginId : Text
  accountId : Text
  /-- `photoForContact`. -/
  photo : Text

inductive MessageType where
  | normal
  | action
  | fileTransferRequest
  | voiceClipRequest
deriving DecidableEq, Repr

inductive Direction where
  | inbound
  | outbound
  | internal
deriving DecidableEq, Repr

/-- `Kopete::Message`. -/
structure Message where
  /-- `from()`. -/
  sender : Option Contact
  timestamp : ℕ
  direction : Direction
  type : MessageType
  highlight : Bool
  isRightToLeft : Bool
  htmlBody : Text
  htmlStyleAttribute : Text
  classes : List Text
  /-- The preview of a file in base 64, if there is one. -/
  filePreview : Option Text
  fileName : Text
  fileSize : ℕ
  id : ℕ

/-- `ChatWindowStyle`. -/
structure ChatWindowStyle where
  styleBaseHref : Text
  hasActionTemplate : Bool

/-- What is outside the chat window. -/
structure Environment where
  /-- To what length names are squeezed, if they are. -/
  truncateContactName : Option ℕ
  csqueeze : Text → ℕ → Text
  showDates : Bool
  date : ℕ → ℕ
  currentDate : ℕ
  formatDateTime : ℕ → Text
  formatClock : ℕ → Text
  strftime : Text → ℕ → Text
  iconPath : Text → Text
  iconNameForUrl : Text → Text
  mediumIconPath : Text → Text
  /-- The color for highlighted messages, if they are highlighted. -/
  highlightBackgroundColor : Option Text
  formatByteSize : ℕ → Text
  /-- `parsedBody`, of an HTML body. -/
  parsed : Text → Text
  toUInt : Text → Option ℕ
  /-- `QColor(name).light(factor).name()`. -/
  light : Text → ℕ → Text

/-- An argument in braces. -/
abbrev Argument := { x : Text // (125 : UInt16) ∉ x }

inductive Keyword where
  | sender
  | time
  | senderScreenName
  | service
  | senderStatusIcon
  | timeFormat (x : Argument)
  | textbackgroundcolor (x : Argument)
  | userIconPath
  | messageDirection
  | senderColor (light : Option Argument)
  | fileName
  | fileSize
  | fileIconPath
  | saveFileHandlerId
  | saveFileAsHandlerId
  | cancelRequestHandlerId
  | playVoiceHandlerId
  | saveAsVoiceHandlerId
  | stateElementId
  | message
deriving DecidableEq

def spell : Keyword → Text
  | .sender => latin1 "%sender%"
  | .time => latin1 "%time%"
  | .senderScreenName => latin1 "%senderScreenName%"
  | .service => latin1 "%service%"
  | .senderStatusIcon => latin1 "%senderStatusIcon%"
  | .timeFormat x => latin1 "%time\x7b" ++ (x.val ++ latin1 "\x7d%")
  | .textbackgroundcolor x => latin1 "%textbackgroundcolor\x7b" ++ (x.val ++ latin1 "\x7d%")
  | .userIconPath => latin1 "%userIconPath%"
  | .messageDirection => latin1 "%messageDirection%"
  | .senderColor none => latin1 "%senderColor%"
  | .senderColor (some x) => latin1 "%senderColor\x7b" ++ (x.val ++ latin1 "\x7d%")
  | .fileName => latin1 "%fileName%"
  | .fileSize => latin1 "%fileSize%"
  | .fileIconPath => latin1 "%fileIconPath%"
  | .saveFileHandlerId => latin1 "%saveFileHandlerId%"
  | .saveFileAsHandlerId => latin1 "%saveFileAsHandlerId%"
  | .cancelRequestHandlerId => latin1 "%cancelRequestHandlerId%"
  | .playVoiceHandlerId => latin1 "%playVoiceHandlerId%"
  | .saveAsVoiceHandlerId => latin1 "%saveAsVoiceHandlerId%"
  | .stateElementId => latin1 "%stateElementId%"
  | .message => latin1 "%message%"

/-! ## The regular expressions -/

/-- `head` and `([^}]*)\}%`, at the beginning of a text: `cap(1)`. -/
def argumentOf (head s : Text) : Option Argument :=
  if head.isPrefixOf s then
    let rest := s.drop head.length
    if (latin1 "\x7d%").isPrefixOf (rest.dropWhile (· ≠ 125)) then
      some ⟨rest.takeWhile (· ≠ 125), fun h => by simpa using List.mem_takeWhile_imp h⟩
    else none
  else none

/-- `timeRegExp`. -/
def timeHere (s : Text) : Option Keyword := (argumentOf (latin1 "%time\x7b") s).map .timeFormat

/-- `textBackgroundRegExp`. -/
def backgroundHere (s : Text) : Option Keyword :=
  (argumentOf (latin1 "%textbackgroundcolor\x7b") s).map .textbackgroundcolor

/-- `senderColorRegExp`. -/
def colorHere (s : Text) : Option Keyword :=
  if (latin1 "%senderColor%").isPrefixOf s then some (.senderColor none)
  else (argumentOf (latin1 "%senderColor\x7b") s).map fun x => .senderColor (some x)

/-! ## What stands for the keywords -/

section Values

variable (env : Environment) (style : ChatWindowStyle) (message : Message)

def escapeQuotes (s : Text) : Text :=
  s.flatMap fun c => if c = 34 then latin1 "&quot;" else [c]

/-- `formatName` of a text, for `Qt::RichText`. -/
def formatText (name : Text) : Text :=
  Kopete.Escape.escape <|
    match env.truncateContactName with
    | some length => env.csqueeze name length
    | none => name

/-- `formatName` of a contact. -/
def formatName (contact : Contact) : Text :=
  formatText env (contact.metaContactName.getD contact.displayName)

def nick : Text := (message.sender.map (formatName env)).getD []

def contactId : Text := (message.sender.map (·.contactId)).getD []

/-- The name of the protocol, by default that of the program. -/
def service : Text :=
  (message.sender.map fun contact => contact.protocolName.getD (latin1 "Kopete")).getD []

def protocolIcon : Text :=
  (message.sender.map fun contact =>
    env.iconPath (if contact.protocolName.isSome then contact.pluginIcon
      else latin1 "kopete")).getD []

def nickLink : Text :=
  match message.sender with
  | some contact =>
    latin1 "<a href=\"kopetemessage://" ++ escapeQuotes (toHtmlEscaped contact.contactId) ++
      latin1 "/?protocolId=" ++ escapeQuotes (toHtmlEscaped contact.pluginId) ++
      latin1 "&amp;accountId=" ++ escapeQuotes (toHtmlEscaped contact.accountId) ++
      latin1 "\" class=\"KopeteDisplayName\">"
  | none => latin1 "<a>"

/-- `bgColor`. -/
def bgColor : Text :=
  match message.highlight, env.highlightBackgroundColor with
  | true, some color => color
  | _, _ => latin1 "inherit"

def photoPath : Text :=
  let photo := (message.sender.map (·.photo)).getD []
  if photo.isEmpty then
    match message.direction with
    | .inbound => style.styleBaseHref ++ latin1 "Incoming/buddy_icon.png"
    | .outbound => style.styleBaseHref ++ latin1 "Outgoing/buddy_icon.png"
    | .internal => photo
  else photo

/-- `parsedBody()`, of an action with the name in front of it if the style has no template for
actions. -/
def parsedBody : Text :=
  if message.type = .action ∧ ¬ style.hasActionTemplate then
    env.parsed (nickLink message ++ latin1 "<b>" ++ nick env message ++ latin1 "</b></a> " ++
      env.parsed message.htmlBody)
  else env.parsed message.htmlBody

def formatMessageBody : Text :=
  latin1 "<span " ++ message.htmlStyleAttribute ++ latin1 "class=\"" ++
    [32].intercalate (latin1 "KopeteMessageBody" :: message.classes) ++ latin1 "\">" ++
    parsedBody env style message ++ latin1 "</span>"

def fileIcon : Text :=
  let icon := env.mediumIconPath (env.iconNameForUrl message.fileName)
  match message.type, message.filePreview with
  | .fileTransferRequest, some preview => latin1 "data:image/png;base64," ++ preview
  | _, _ => icon

/-- The argument of `%senderColor%` as a number. -/
def lightOf (light : Option Argument) : Option ℕ := env.toUInt ((light.map (·.val)).getD [])

/-- What a keyword is replaced by, with the color of the sender. -/
def value (colorName : Text) : Keyword → Text
  | .sender => nickLink message ++ nick env message ++ latin1 "</a>"
  | .time =>
    if env.showDates ∧ env.date message.timestamp ≠ env.currentDate then
      env.formatDateTime message.timestamp
    else env.formatClock message.timestamp
  | .senderScreenName => nickLink message ++ toHtmlEscaped (contactId message) ++ latin1 "</a>"
  | .service => toHtmlEscaped (service message)
  | .senderStatusIcon => escapeQuotes (toHtmlEscaped (protocolIcon env message))
  | .timeFormat x => env.strftime x message.timestamp
  | .textbackgroundcolor _ => bgColor env message
  | .userIconPath => photoPath style message
  | .messageDirection => if message.isRightToLeft then latin1 "rtl" else latin1 "ltr"
  | .senderColor light =>
    match lightOf env light with
    | some factor => env.light colorName factor
    | none => colorName
  | .fileName => escapeQuotes (toHtmlEscaped message.fileName)
  | .fileSize => escapeQuotes (env.formatByteSize message.fileSize)
  | .fileIconPath => fileIcon env message
  | .saveFileHandlerId => latin1 "ftSV" ++ latin1 message.id.repr
  | .saveFileAsHandlerId => latin1 "ftSA" ++ latin1 message.id.repr
  | .cancelRequestHandlerId => latin1 "ftCC" ++ latin1 message.id.repr
  | .playVoiceHandlerId => latin1 "vcPL" ++ latin1 message.id.repr
  | .saveAsVoiceHandlerId => latin1 "vcSA" ++ latin1 message.id.repr
  | .stateElementId => latin1 "msST" ++ latin1 message.id.repr
  | .message => formatMessageBody env style message

end Values

/-! ## The replacements -/

/-- A statement of the function: a `replace`, or one of the three loops. -/
inductive Step where
  | word (k : Keyword)
  | times
  | backgrounds
  | colors
deriving DecidableEq

def senderSteps (message : Message) : List Step :=
  if message.sender.isSome then [.word .userIconPath] else []

def typeSteps (message : Message) : List Step :=
  match message.type with
  | .normal => if message.direction = .outbound then [.word .stateElementId] else []
  | .action => []
  | .fileTransferRequest =>
    [.word .fileName, .word .fileSize, .word .fileIconPath, .word .saveFileHandlerId,
      .word .saveFileAsHandlerId, .word .cancelRequestHandlerId]
  | .voiceClipRequest =>
    [.word .fileIconPath, .word .playVoiceHandlerId, .word .saveAsVoiceHandlerId]

/-- The statements for a message, in their order: of those for a type of messages, only its
own. -/
def steps (message : Message) : List Step :=
  .word .sender :: .word .time :: .word .senderScreenName :: .word .service ::
    .word .senderStatusIcon :: .times :: .backgrounds ::
    (senderSteps message ++ .word .messageDirection :: .colors ::
      (typeSteps message ++ [.word .message]))

section Replacements

variable (env : Environment) (style : ChatWindowStyle) (message : Message)

/-- What the loop over the colors puts in; `lightColorName` is made when a lightness is asked
for the first time. -/
def nextColor (colorName : Text) (lightColorName : Option Text) : Keyword → Text × Option Text
  | .senderColor light =>
    match lightOf env light with
    | some factor =>
      let lightColor := lightColorName.getD (env.light colorName factor)
      (lightColor, some lightColor)
    | none => (colorName, lightColorName)
  | _ => ([], lightColorName)

/-- A statement, on `resultHTML`. -/
def runStep (colorName : Text) (fuel : ℕ) : Step → Text → Option Text
  | .word k, html =>
    some (Replace.replaceAll (spell k) (value env style message colorName k) html)
  | .times, html =>
    Template.replaceLoop timeHere spell
      (fun _ k => (value env style message colorName k, ())) fuel () html
  | .backgrounds, html =>
    Template.replaceLoop backgroundHere spell
      (fun _ k => (value env style message colorName k, ())) fuel () html
  | .colors, html => Template.replaceLoop colorHere spell (nextColor env colorName) fuel none html

/-- `formatStyleKeywords`; `none` if a loop has not ended with this fuel, or if the color of the
sender is read outside of its table. -/
def formatStyleKeywords (currentChatStyle : Option ChatWindowStyle) (fuel : ℕ)
    (sourceHTML : Text) : Option Text :=
  match currentChatStyle with
  | none => some []
  | some style =>
    match nameColor (contactId message) with
    | none => none
    | some colorName =>
      (steps message).foldlM (fun html step => runStep env style message colorName fuel step html)
        sourceHTML

/-! ## What is asked for -/

/-- The keywords without an argument. -/
def words : List Keyword :=
  [.sender, .time, .senderScreenName, .service, .senderStatusIcon, .userIconPath,
    .messageDirection, .fileName, .fileSize, .fileIconPath, .saveFileHandlerId,
    .saveFileAsHandlerId, .cancelRequestHandlerId, .playVoiceHandlerId, .saveAsVoiceHandlerId,
    .stateElementId, .message]

/-- The keyword that begins here. -/
def find (s : Text) : Option Keyword :=
  (words.find? fun k => (spell k).isPrefixOf s).or
    ((timeHere s).or ((backgroundHere s).or (colorHere s)))

def tokens (template : Text) : List (Token UInt16 Keyword) :=
  Template.lex spell find (template.map .direct)

/-- The keywords that a statement replaces. -/
def Step.turn : Step → Keyword → Bool
  | .word k, j => j == k
  | .times, .timeFormat _ => true
  | .backgrounds, .textbackgroundcolor _ => true
  | .colors, .senderColor _ => true
  | _, _ => false

/-- What stands for a keyword behind some of the statements. -/
def progress (colorName : Text) (done : List Step) (k : Keyword) : Text :=
  if done.any (·.turn k) then value env style message colorName k else spell k

/-- **The template, filled in**: the keywords that are there for such a message are replaced by
their values at once. -/
def filled (colorName template : Text) : Text :=
  fill (progress env style message colorName (steps message)) (tokens template)

/-- What a regular expression looks for is found only at its keywords, and so it is behind
what is put in for one of them. -/
def LoopClean (here : Text → Option Keyword) (step : Step) (colorName : Text)
    (f : Keyword → Text) (ts : List (Token UInt16 Keyword)) : Prop :=
  OnlyBehind here f [] ts ∧ ∀ us k vs, ts = us ++ .word k :: vs → step.turn k = true →
    OnlyBehind here f (value env style message colorName k) vs

/-- A statement finds its keywords only where they stand in the template, and the colors are
asked for in one lightness. -/
def StepClean (colorName : Text) (f : Keyword → Text) (ts : List (Token UInt16 Keyword)) :
    Step → Prop
  | .word k => OnlyAt f k ts
  | .times => LoopClean env style message timeHere .times colorName f ts
  | .backgrounds => LoopClean env style message backgroundHere .backgrounds colorName f ts
  | .colors =>
    LoopClean env style message colorHere .colors colorName f ts ∧
      ∀ light light' n n', Token.word (.senderColor light) ∈ ts → lightOf env light = some n →
        Token.word (.senderColor light') ∈ ts → lightOf env light' = some n' →
          env.light colorName n = env.light colorName n'

/-- When the turn of a statement comes, no keyword of it comes up but those of the
template. -/
def Clean (colorName template : Text) : Prop :=
  ∀ pre step post, steps message = pre ++ step :: post →
    StepClean env style message colorName (progress env style message colorName pre)
      (tokens template) step

end Replacements

/-! ## Keywords and statements -/

theorem spell_ne_nil (k : Keyword) : spell k ≠ [] := by
  cases k with
  | senderColor light => cases light <;> exact List.cons_ne_nil _ _
  | _ => exact List.cons_ne_nil _ _

theorem takeWhile_argument (x : Argument) (t : Text) :
    (x.val ++ 125 :: t).takeWhile (· ≠ 125) = x.val := by
  have hAll : ∀ c ∈ x.val, decide (c ≠ 125) = true := by
    intro c hc
    exact decide_eq_true fun hEnd => x.property (hEnd ▸ hc)
  rw [List.takeWhile_append_of_pos hAll, List.takeWhile_cons_of_neg (by simp), List.append_nil]

theorem dropWhile_argument (x : Argument) (t : Text) :
    (x.val ++ 125 :: t).dropWhile (· ≠ 125) = 125 :: t := by
  have hAll : ∀ c ∈ x.val, decide (c ≠ 125) = true := by
    intro c hc
    exact decide_eq_true fun hEnd => x.property (hEnd ▸ hc)
  rw [List.dropWhile_append_of_pos hAll, List.dropWhile_cons_of_neg (by simp)]

/-- A regular expression finds what is spelled so. -/
theorem argumentOf_append (head : Text) (x : Argument) (t : Text) :
    argumentOf head (head ++ (x.val ++ latin1 "\x7d%") ++ t) = some x := by
  have hText : head ++ (x.val ++ latin1 "\x7d%") ++ t = head ++ (x.val ++ 125 :: 37 :: t) := by
    rw [List.append_assoc, List.append_assoc]
    rfl
  have hHead : head.isPrefixOf (head ++ (x.val ++ 125 :: 37 :: t)) = true :=
    List.isPrefixOf_iff_prefix.2 (List.prefix_append _ _)
  have hEnd : (latin1 "\x7d%").isPrefixOf (125 :: 37 :: t) = true :=
    List.isPrefixOf_iff_prefix.2 ⟨t, rfl⟩
  rw [hText, argumentOf, if_pos hHead]
  simp only [List.drop_left, dropWhile_argument, takeWhile_argument, hEnd, if_true]

theorem prefix_of_argumentOf {head s : Text} {x : Argument} (h : argumentOf head s = some x) :
    head ++ (x.val ++ latin1 "\x7d%") <+: s := by
  unfold argumentOf at h
  split at h
  · next hHead =>
    obtain ⟨rest, rfl⟩ := List.isPrefixOf_iff_prefix.1 hHead
    simp only [List.drop_left] at h
    split at h
    · next hEnd =>
      obtain ⟨t, ht⟩ := List.isPrefixOf_iff_prefix.1 hEnd
      have hArgument := congrArg Subtype.val (Option.some.inj h)
      simp only at hArgument
      rw [← hArgument]
      refine ⟨t, ?_⟩
      rw [List.append_assoc, List.append_assoc, ht, List.takeWhile_append_dropWhile]
    · cases h
  · cases h

/-- Two statements without a keyword in common. -/
def Step.apart : Step → Step → Bool
  | .word k, .word j => k != j
  | .word k, step => !step.turn k
  | step, .word k => !step.turn k
  | step, step' => step != step'

theorem not_turn_of_apart {step step' : Step} {k : Keyword} (h : step.apart step' = true)
    (hTurn : step.turn k = true) : step'.turn k = false := by
  by_contra hBoth
  rw [Bool.not_eq_false] at hBoth
  cases step with
  | word j =>
    obtain rfl : k = j := by simpa [Step.turn] using hTurn
    cases step' with
    | word i =>
      obtain rfl : k = i := by simpa [Step.turn] using hBoth
      simp [Step.apart] at h
    | times | backgrounds | colors => simp [Step.apart, hBoth] at h
  | times | backgrounds | colors =>
    cases step' with
    | word i =>
      obtain rfl : k = i := by simpa [Step.turn] using hBoth
      simp [Step.apart, hTurn] at h
    | times | backgrounds | colors =>
      first
      | exact absurd h (by decide)
      | cases k <;> first
        | exact absurd hTurn Bool.false_ne_true
        | exact absurd hBoth Bool.false_ne_true

theorem steps_apart (message : Message) :
    (steps message).Pairwise fun step step' => step.apart step' = true := by
  unfold steps senderSteps typeSteps
  generalize message.sender.isSome = known
  cases known <;> cases message.type <;> cases message.direction <;> decide +kernel

/-- A keyword whose turn comes is spelled still. -/
theorem not_turn_before {message : Message} {pre post : List Step} {step : Step}
    (h : steps message = pre ++ step :: post) {k : Keyword} (hTurn : step.turn k = true) :
    pre.any (·.turn k) = false := by
  have hApart := steps_apart message
  rw [h, List.pairwise_append] at hApart
  rw [List.any_eq_false]
  intro step' hMem hTurn'
  have hNot := not_turn_of_apart (hApart.2.2 step' hMem step List.mem_cons_self) hTurn'
  rw [hTurn] at hNot
  cases hNot

/-! ## One statement, and all of them -/

section Steps

variable {env : Environment} {style : ChatWindowStyle} {message : Message} {colorName : Text}

theorem progress_snoc (pre : List Step) (step : Step) (k : Keyword) :
    progress env style message colorName (pre ++ [step]) k =
      if step.turn k = true then value env style message colorName k
      else progress env style message colorName pre k := by
  unfold progress
  rw [List.any_append, List.any_cons, List.any_nil, Bool.or_false]
  cases pre.any (·.turn k) <;> cases step.turn k <;> rfl

theorem progress_of_not_turn {pre : List Step} {k : Keyword} (h : pre.any (·.turn k) = false) :
    progress env style message colorName pre k = spell k := by
  rw [progress, h, if_neg Bool.false_ne_true]

/-- What the three regular expressions have in common. -/
structure Finds (here : Text → Option Keyword) (step : Step) : Prop where
  turn_of_here : ∀ {s k}, here s = some k → step.turn k = true
  here_of_turn : ∀ {k}, step.turn k = true → ∀ t, here (spell k ++ t) = some k

theorem finds_times : Finds timeHere .times where
  turn_of_here h := by
    obtain ⟨x, -, rfl⟩ := Option.map_eq_some_iff.1 h
    rfl
  here_of_turn {k} hTurn t := by
    cases k with
    | timeFormat x => rw [timeHere, spell, argumentOf_append]; rfl
    | _ => cases hTurn

theorem finds_backgrounds : Finds backgroundHere .backgrounds where
  turn_of_here h := by
    obtain ⟨x, -, rfl⟩ := Option.map_eq_some_iff.1 h
    rfl
  here_of_turn {k} hTurn t := by
    cases k with
    | textbackgroundcolor x => rw [backgroundHere, spell, argumentOf_append]; rfl
    | _ => cases hTurn

theorem finds_colors : Finds colorHere .colors where
  turn_of_here {s k} h := by
    unfold colorHere at h
    split at h
    · cases h
      rfl
    · obtain ⟨x, -, rfl⟩ := Option.map_eq_some_iff.1 h
      rfl
  here_of_turn {k} hTurn t := by
    cases k with
    | senderColor light =>
      cases light with
      | none => exact if_pos (List.isPrefixOf_iff_prefix.2 (List.prefix_append _ _))
      | some x =>
        have hNot : (latin1 "%senderColor%").isPrefixOf (spell (.senderColor (some x)) ++ t) =
            false := rfl
        rw [colorHere, hNot, if_neg Bool.false_ne_true, spell, argumentOf_append]
        rfl
    | _ => cases hTurn

/-- **A loop** over a regular expression. -/
theorem loop_fill {σ : Type} {here : Text → Option Keyword} {step : Step} (hFinds : Finds here step)
    {pre post : List Step} (hSteps : steps message = pre ++ step :: post)
    {ts : List (Token UInt16 Keyword)}
    (hClean : LoopClean env style message here step colorName
      (progress env style message colorName pre) ts)
    {next : σ → Keyword → Text × σ} {Inv : σ → Prop}
    (hValue : ∀ k, Token.word k ∈ ts → step.turn k = true → ∀ state, Inv state →
      (next state k).1 = value env style message colorName k ∧ Inv (next state k).2)
    {fuel : ℕ} (hFuel : ts.length < fuel) {state : σ} (hState : Inv state) :
    Template.replaceLoop here spell next fuel state
        (fill (progress env style message colorName pre) ts) =
      some (fill (progress env style message colorName (pre ++ [step])) ts) := by
  have hFound : ∀ k, step.turn k = true → progress env style message colorName pre k = spell k ∧
      spell k ≠ [] ∧ ∀ t, here (spell k ++ t) = some k :=
    fun k hTurn => ⟨progress_of_not_turn (not_turn_before hSteps hTurn), spell_ne_nil k,
      hFinds.here_of_turn hTurn⟩
  have hLoop := Template.replaceLoop_fill hFinds.turn_of_here hFound hValue hClean.1 hClean.2
    hFuel hState
  simp only [List.nil_append] at hLoop
  rw [hLoop, funext (progress_snoc pre step)]

/-- **One statement** fills in its keywords. -/
theorem run_step {pre post : List Step} {step : Step}
    (hSteps : steps message = pre ++ step :: post) {ts : List (Token UInt16 Keyword)}
    (hClean : StepClean env style message colorName (progress env style message colorName pre) ts
      step) {fuel : ℕ} (hFuel : ts.length < fuel) :
    runStep env style message colorName fuel step
        (fill (progress env style message colorName pre) ts) =
      some (fill (progress env style message colorName (pre ++ [step])) ts) := by
  cases step with
  | word k =>
    have hSpell : progress env style message colorName pre k = spell k :=
      progress_of_not_turn (not_turn_before hSteps (beq_self_eq_true k))
    have hReplace := Template.replaceAll_fill (by rw [hSpell]; exact spell_ne_nil k)
      (value env style message colorName k) hClean
    have hUpdate : Function.update (progress env style message colorName pre) k
        (value env style message colorName k) =
          progress env style message colorName (pre ++ [.word k]) := by
      funext j
      rw [progress_snoc]
      by_cases hj : j = k
      · subst hj
        have hSelf : (Step.word j).turn j = true := beq_self_eq_true j
        rw [Function.update_self, if_pos hSelf]
      · rw [Function.update_of_ne hj, if_neg (by simpa [Step.turn] using hj)]
    rw [hSpell, hUpdate] at hReplace
    rw [runStep, hReplace]
  | times =>
    have hValue : ∀ k, Token.word k ∈ ts → Step.times.turn k = true → ∀ state : Unit, True →
        value env style message colorName k = value env style message colorName k ∧ True :=
      fun _ _ _ _ _ => ⟨rfl, trivial⟩
    exact loop_fill finds_times hSteps hClean hValue hFuel trivial
  | backgrounds =>
    have hValue : ∀ k, Token.word k ∈ ts → Step.backgrounds.turn k = true → ∀ state : Unit,
        True → value env style message colorName k = value env style message colorName k ∧ True :=
      fun _ _ _ _ _ => ⟨rfl, trivial⟩
    exact loop_fill finds_backgrounds hSteps hClean hValue hFuel trivial
  | colors =>
    obtain ⟨hLoop, hSame⟩ := hClean
    -- the light color that has been made is that of every lightness of the template
    let Made (lightColorName : Option Text) : Prop := ∀ lightColor ∈ lightColorName,
      ∀ light n, Token.word (.senderColor light) ∈ ts → lightOf env light = some n →
        lightColor = env.light colorName n
    have hNone : Made none := fun lightColor hMem => nomatch hMem
    refine loop_fill finds_colors hSteps hLoop (fun k hMem hTurn made (hMade : Made made) => ?_)
      hFuel hNone
    cases k with
    | senderColor light =>
      rw [nextColor, value]
      cases hLight : lightOf env light with
      | none => exact ⟨rfl, hMade⟩
      | some factor =>
        have hColor : made.getD (env.light colorName factor) = env.light colorName factor := by
          cases made with
          | none => rfl
          | some lightColor => exact hMade lightColor rfl light factor hMem hLight
        refine ⟨hColor, fun lightColor hMade' light' n hMem' hLight' => ?_⟩
        rw [← Option.some.inj hMade', hColor]
        exact hSame light light' factor n hMem hLight hMem' hLight'
    | _ => cases hTurn

theorem spell_of_find {s : Text} {k : Keyword} (h : find s = some k) :
    spell k <+: s ∧ spell k ≠ [] := by
  refine ⟨?_, spell_ne_nil k⟩
  rcases Option.or_eq_some_iff.1 h with hWord | ⟨-, h⟩
  · have hPrefix := List.find?_some hWord
    exact List.isPrefixOf_iff_prefix.1 hPrefix
  rcases Option.or_eq_some_iff.1 h with hTime | ⟨-, h⟩
  · obtain ⟨x, hArgument, rfl⟩ := Option.map_eq_some_iff.1 hTime
    exact prefix_of_argumentOf hArgument
  rcases Option.or_eq_some_iff.1 h with hBackground | ⟨-, hColor⟩
  · obtain ⟨x, hArgument, rfl⟩ := Option.map_eq_some_iff.1 hBackground
    exact prefix_of_argumentOf hArgument
  · unfold colorHere at hColor
    split at hColor
    · next hPrefix =>
      cases hColor
      exact List.isPrefixOf_iff_prefix.1 hPrefix
    · obtain ⟨x, hArgument, rfl⟩ := Option.map_eq_some_iff.1 hColor
      exact prefix_of_argumentOf hArgument

theorem cellsText_direct (s : Text) : Template.cellsText (s.map .direct) = s := by
  induction s with
  | nil => rfl
  | cons c s ih => rw [List.map_cons, Template.cellsText, ih]

end Steps

/-! ## Deciding -/

section Check

variable (env : Environment) (style : ChatWindowStyle) (message : Message) (colorName : Text)

/-- Nothing is found in what a loop puts in, and behind it only keywords of the template. -/
def laterCheck (here : Text → Option Keyword) (step : Step) (f : Keyword → Text) :
    List (Token UInt16 Keyword) → Bool
  | [] => true
  | .text _ :: ts => laterCheck here step f ts
  | .word k :: ts =>
    (!step.turn k || Template.noneIn here (value env style message colorName k) (fill f ts)) &&
      laterCheck here step f ts

def loopCheck (here : Text → Option Keyword) (step : Step) (f : Keyword → Text)
    (ts : List (Token UInt16 Keyword)) : Bool :=
  Template.onlyCheck here f ts && laterCheck env style message colorName here step f ts

/-- The light colors that are asked for. -/
def lightColors (ts : List (Token UInt16 Keyword)) : List Text :=
  ts.filterMap fun
    | .word (.senderColor light) => (lightOf env light).map (env.light colorName)
    | _ => none

def stepCheck (f : Keyword → Text) (ts : List (Token UInt16 Keyword)) : Step → Bool
  | .word k => !(f k).isEmpty && Template.onlyCheck (Template.isHere f k) f ts
  | .times => loopCheck env style message colorName timeHere .times f ts
  | .backgrounds => loopCheck env style message colorName backgroundHere .backgrounds f ts
  | .colors =>
    loopCheck env style message colorName colorHere .colors f ts &&
      (lightColors env colorName ts).all fun c => (lightColors env colorName ts).all (c == ·)

/-- The check of all statements from one on. -/
def cleanCheck (ts : List (Token UInt16 Keyword)) : List Step → List Step → Bool
  | _, [] => true
  | pre, step :: post =>
    stepCheck env style message colorName (progress env style message colorName pre) ts step &&
      cleanCheck ts (pre ++ [step]) post

variable {env} {style} {message} {colorName}

theorem loopClean_of_check {here : Text → Option Keyword} {step : Step} {f : Keyword → Text}
    {ts : List (Token UInt16 Keyword)} (hNil : here [] = none)
    (h : loopCheck env style message colorName here step f ts = true) :
    LoopClean env style message here step colorName f ts := by
  obtain ⟨hOnly, hLater⟩ := Bool.and_eq_true_iff.1 h
  refine ⟨Template.onlyBehind_of_check hNil rfl hOnly, fun us k vs hTokens hTurn => ?_⟩
  induction us generalizing ts with
  | nil =>
    subst hTokens
    have hRest := Template.onlyCheck_tail hOnly
    obtain ⟨hHere, -⟩ := Bool.and_eq_true_iff.1 hLater
    rw [hTurn] at hHere
    exact Template.onlyBehind_of_check hNil hHere hRest
  | cons u us ih =>
    subst hTokens
    have hRest := Template.onlyCheck_tail hOnly
    have hLaterRest : laterCheck env style message colorName here step f (us ++ .word k :: vs) =
        true := by
      cases u with
      | text s => exact hLater
      | word j => exact (Bool.and_eq_true_iff.1 hLater).2
    exact ih (Bool.and_eq_true_iff.2 ⟨hRest, hLaterRest⟩) hRest hLaterRest rfl

theorem stepClean_of_check {f : Keyword → Text} {ts : List (Token UInt16 Keyword)} {step : Step}
    (h : stepCheck env style message colorName f ts step = true) :
    StepClean env style message colorName f ts step := by
  cases step with
  | word k =>
    obtain ⟨hWord, hOnly⟩ := Bool.and_eq_true_iff.1 h
    exact Template.onlyAt_of_check (by simpa using hWord) hOnly
  | times => exact loopClean_of_check rfl h
  | backgrounds => exact loopClean_of_check rfl h
  | colors =>
    obtain ⟨hLoop, hSame⟩ := Bool.and_eq_true_iff.1 h
    refine ⟨loopClean_of_check rfl hLoop, fun light light' n n' hMem hLight hMem' hLight' => ?_⟩
    have hColors : ∀ light n, Token.word (.senderColor light) ∈ ts → lightOf env light = some n →
        env.light colorName n ∈ lightColors env colorName ts := by
      intro light n hMem hLight
      exact List.mem_filterMap.2 ⟨_, hMem, by simp [hLight]⟩
    have hAll := List.all_eq_true.1 hSame _ (hColors light n hMem hLight)
    exact beq_iff_eq.1 (List.all_eq_true.1 hAll _ (hColors light' n' hMem' hLight'))

/-- **The check is sound.** -/
theorem clean_of_check {template : Text}
    (h : cleanCheck env style message colorName (tokens template) [] (steps message) = true) :
    Clean env style message colorName template := by
  have hFrom : ∀ pre rest,
      cleanCheck env style message colorName (tokens template) pre rest = true →
      ∀ mid step post, rest = mid ++ step :: post →
        StepClean env style message colorName (progress env style message colorName (pre ++ mid))
          (tokens template) step := by
    intro pre rest hCheck mid step post hRest
    induction mid generalizing pre rest with
    | nil =>
      subst hRest
      rw [List.append_nil]
      exact stepClean_of_check (Bool.and_eq_true_iff.1 hCheck).1
    | cons s mid ih =>
      subst hRest
      have hNext := ih (pre ++ [s]) _ (Bool.and_eq_true_iff.1 hCheck).2 rfl
      rwa [List.append_assoc] at hNext
  intro pre step post hSteps
  exact hFrom [] _ h pre step post hSteps

end Check

/-! ## Messages that are formatted as they should be, and one that is not -/

/-- Names as they are, and one format of times. -/
def plainEnvironment : Environment where
  truncateContactName := none
  csqueeze name _ := name
  showDates := false
  date timestamp := timestamp / 86400
  currentDate := 0
  formatDateTime _ := latin1 "01.01.1970 10:00:00"
  formatClock _ := latin1 "10:00:00"
  strftime format _ := if format = latin1 "%H:%M" then latin1 "10:00" else format
  iconPath name := latin1 "/icons/small/" ++ name
  iconNameForUrl _ := latin1 "unknown"
  mediumIconPath name := latin1 "/icons/medium/" ++ name
  highlightBackgroundColor := none
  formatByteSize size := latin1 size.repr ++ latin1 " B"
  parsed html := html
  toUInt _ := none
  light colorName _ := colorName

def plainStyle : ChatWindowStyle := ⟨latin1 "/styles/Plain/", true⟩

/-- A message from somebody with this name. -/
def messageFrom (displayName : Text) : Message where
  sender := some ⟨displayName, none, latin1 "someone", some (latin1 "Jabber"),
    latin1 "jabber_protocol", latin1 "JabberProtocol", latin1 "me", []⟩
  timestamp := 36000
  direction := .inbound
  type := .normal
  highlight := false
  isRightToLeft := false
  htmlBody := latin1 "hello"
  htmlStyleAttribute := []
  classes := []
  filePreview := none
  fileName := []
  fileSize := 0
  id := 1

def contentTemplate : Text := latin1 "<b>%sender%</b> %time\x7b%H:%M\x7d% <div>%message%</div>"

end ChatMessagePart
