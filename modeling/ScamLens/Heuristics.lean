import ScamLens.BacktrackingRegex
import ScamLens.PythonText
import ScamLens.ScanVerdicts

/-!
# Static scan of a captured page

The fingerprints a page is scanned for, the summary of them that the model is
shown, the severity they enforce, and the classifier of pages that are not
worth a model call. Patterns match code points; matching without case folds
the letters that Python folds.
-/

namespace ScamLens.Heuristics

open BacktrackingRegex PythonText ScanVerdicts

/-- Lower-case image of a code point as the pattern matcher computes it. -/
def foldChar (c : Char) : Char :=
  if c = '\u0130' then 'i' else if c = '\u212A' then 'k' else c.toLower

/-- The lower-case images that a letter of a pattern stands for. -/
def foldForms (c : Char) : Text :=
  if c = 'i' then ['i','\u0131'] else if c = 's' then ['s','\u017F'] else [c]

/-- A literal of a case-sensitive pattern. -/
def literal (s : Text) : Regex Char := .seqs (s.map fun c => .symbol (·==c))

/-- A lower-case literal of a case-insensitive pattern. -/
def word (s : Text) : Regex Char :=
  .seqs (s.map fun c => .symbol fun d => (foldForms c).contains (foldChar d))

/-- The code points of `['"]`. -/
def isQuote (c : Char) : Bool := c == '\x27' || c == '\x22'

/-- One of the listed code points. -/
def oneOf (cs : Text) : Regex Char := .symbol cs.contains

/-- `['"]?` -/
def optQuote : Regex Char := .opt (.symbol isQuote)

/-- `[0-9a-fA-F]` -/
def hexDigit : Regex Char :=
  .symbol fun c => c.isDigit || ("abcdefABCDEF".toList.contains c)

/-- `OBFUSCATED_SCRIPT_RE` -/
def obfuscatedScriptRe : Regex Char :=
  .alts [literal "eval(".toList,literal "atob(".toList,literal "fromCharCode".toList,
    literal "unescape(".toList,literal "String.fromCharCode".toList,
    literal "document.write(".toList,
    .seqs [literal "\\x".toList,hexDigit,hexDigit],
    .seqs [literal "\\u".toList,hexDigit,hexDigit,hexDigit,hexDigit]]

/-- `PASSWORD_FIELD_RE` -/
def passwordFieldRe : Regex Char :=
  .seqs [word "<input".toList,.star (· != '>'),word "type=".toList,optQuote,
    word "password".toList,optQuote]

/-- `CARD_FIELD_RE` -/
def cardFieldRe : Regex Char :=
  .alts [.seqs [word "card".toList,.opt (oneOf "_-".toList),word "number".toList],
    word "cardnumber".toList,
    .seqs [word "cc".toList,.opt (oneOf "_-".toList),word "num".toList],
    word "cvv".toList,word "cvc".toList,
    .seqs [word "name=".toList,optQuote,
      .alts (["card","cvv","cvc","expiry","exp_"].map fun s => word s.toList),optQuote]]

/-- `OTP_FIELD_RE` -/
def otpFieldRe : Regex Char :=
  .alts [.seqs [word "name=".toList,optQuote,
      .alts [word "otp".toList,word "tac".toList,word "2fa".toList,word "mfa".toList,
        .seqs [word "verification".toList,.opt (oneOf "_-".toList),word "code".toList],
        .seqs [word "sms".toList,.opt (oneOf "_-".toList),word "code".toList]],optQuote],
    .seqs [word "placeholder=".toList,.symbol isQuote,.lazyStar (!isQuote ·),
      .alts [word "otp".toList,word "verification code".toList,
        .seqs [word "6".toList,.opt (.symbol (· != '\n')),word "digit".toList]],
      .lazyStar (!isQuote ·),.symbol isQuote]]

/-- `SEED_PHRASE_RE` -/
def seedPhraseRe : Regex Char :=
  .alts ([("seed","phrase"),("recovery","phrase"),("12","word"),("24","word"),
      ("mnemonic","phrase")].map (fun p =>
        .seqs [word p.1.toList,.opt (oneOf "_ -".toList),word p.2.toList])++
    [.seqs [word "secret".toList,.opt (oneOf "_ -".toList),word "recovery".toList]])

/-- `SUSPICIOUS_TLDS` -/
def suspiciousTlds : List Text :=
  ["tk","ml","ga","cf","gq","xyz","top","click","loan","work","rest","live","support",
    "info-secure","id"].map (·.toList)

/-- `BRAND_KEYWORDS` -/
def brandKeywords : List Text :=
  ["paypal","facebook","instagram","whatsapp","tiktok","linkedin","google","gmail","apple",
    "icloud","microsoft","outlook","office365","amazon","netflix","spotify","discord","maybank",
    "cimb","publicbank","rhb","ambank","hongleong","bsn","bank","bnm","dudm","binance",
    "coinbase","metamask","trustwallet","ledger","trezor","shopee","lazada","grab",
    "foodpanda"].map (·.toList)

/-- `URGENCY_PHRASES` -/
def urgencyPhrases : List Text :=
  ["your account will be locked","verify within","limited time","act now","last chance",
    "expire","suspend","unusual activity","secure your account","claim now",
    "congratulations you have won","you are eligible"].map (·.toList)

/-- `HeuristicReport` -/
structure HeuristicReport where
  /-- A password input. -/
  hasPasswordField : Bool
  /-- A credit-card field. -/
  hasCardField : Bool
  /-- A field for a one-time password. -/
  hasOtpField : Bool
  /-- A request for a wallet phrase. -/
  hasSeedPhraseAsk : Bool
  /-- Number of markers of obfuscated scripts. -/
  obfuscatedScriptCount : ℕ
  /-- Brands mentioned that the domain is not named after. -/
  credBrandTerms : List Text
  /-- Urgency phrases. -/
  suspiciousKeywords : List Text
  /-- A top-level domain of high abuse. -/
  freeTld : Bool
  deriving DecidableEq

/-- The last dot-separated part of a domain, `domain.rsplit(".", 1)[-1]`. -/
def lastLabel (domain : Text) : Text := (domain.splitOn '.').getLastD []

/-- `analyze` -/
def analyze (html domain : Text) : HeuristicReport :=
  let lowered := lower html
  let label :=
    if domain.contains '.' then ((lower domain).splitOn '.').dropLast.getLastD []
    else lower domain
  let credBrandTerms := brandKeywords.filter fun b => contains b lowered && b != label
  let susKeywords := urgencyPhrases.filter fun p => contains p lowered
  let tld := if domain.contains '.' then lower (lastLabel domain) else []
  { hasPasswordField := passwordFieldRe.search html
    hasCardField := cardFieldRe.search html
    hasOtpField := otpFieldRe.search html
    hasSeedPhraseAsk := seedPhraseRe.search html
    obfuscatedScriptCount := obfuscatedScriptRe.count html
    credBrandTerms := credBrandTerms.take 8
    suspiciousKeywords := susKeywords.take 6
    freeTld := suspiciousTlds.contains tld }

/-- `render_for_prompt` -/
def renderForPrompt (report : HeuristicReport) : Text :=
  let line (present : Bool) (text : Text) : List Text := if present then [text] else []
  let count := ofInt report.obfuscatedScriptCount
  let lines :=
    line report.hasPasswordField "- HTML contains <input type=password>".toList++
    line report.hasCardField
      "- HTML contains a credit-card field (card number / CVV / expiry)".toList++
    line report.hasOtpField "- HTML contains an OTP / 2FA / TAC field".toList++
    line report.hasSeedPhraseAsk "- Page asks for a wallet seed / recovery phrase".toList++
    line (3 ≤ report.obfuscatedScriptCount)
      ("- ".toList++count++" obfuscated-JS markers ".toList++
        "(eval/atob/fromCharCode/escape sequences)".toList)++
    line (!report.credBrandTerms.isEmpty)
      ("- Brand names mentioned in copy that the domain does NOT own: ".toList++
        join ", ".toList report.credBrandTerms)++
    line (!report.suspiciousKeywords.isEmpty)
      ("- Urgency / scam phrases found: ".toList++
        join "; ".toList (report.suspiciousKeywords.map fun p => '\x22'::p++['\x22']))++
    line report.freeTld "- Domain uses a high-abuse TLD (free / low-cost)".toList
  if lines=[] then "- No high-risk tokens detected by static scan.".toList
  else join ['\n'] lines

/-- `severity_floor` -/
def severityFloor (report : HeuristicReport) (domain : Text) : ScanClass×List Text :=
  let brands := !report.credBrandTerms.isEmpty
  let count := ofInt report.obfuscatedScriptCount
  let extraFlags := brands || report.freeTld || 3 ≤ report.obfuscatedScriptCount ||
    report.hasOtpField || report.hasCardField || report.hasSeedPhraseAsk
  if report.hasSeedPhraseAsk then
    (.scam,["Page requests a wallet seed / recovery phrase".toList])
  else if report.hasCardField && (brands || report.freeTld) then
    (.scam,[if brands then
        "Credit-card form on a domain that doesn't own the brand it mentions".toList
      else "Credit-card form on a high-abuse TLD".toList])
  else if report.hasPasswordField && extraFlags then
    (.suspicious,
      if brands then
        ["Password field plus brand impersonation: domain mentions ".toList++
          join ", ".toList report.credBrandTerms++
          " in copy without owning the trademark".toList]
      else if report.freeTld then ["Password field on a high-abuse TLD".toList]
      else if 3 ≤ report.obfuscatedScriptCount then
        ["Password field plus heavy script obfuscation ".toList++
          "(".toList++count++" markers)".toList]
      else if report.hasOtpField then ["Password field plus OTP / 2FA capture".toList]
      else [])
  else if 5 ≤ report.obfuscatedScriptCount then
    (.suspicious,["Heavy script obfuscation (".toList++count++" markers)".toList])
  else if brands && report.freeTld then
    (.suspicious,["Free TLD '.".toList++lastLabel domain++"' plus brand mentions: ".toList++
      join ", ".toList report.credBrandTerms])
  else (.safe,[])

section EmptyPages

/-- `html.unescape`: text without an ampersand is left alone, every other text
goes through the table of character references. -/
def htmlUnescape (charRefs : Text → Text) (s : Text) : Text :=
  if s.contains '&' then charRefs s else s

/-- `<[^>]+>` -/
def tagRe : Regex Char := .seqs [literal ['<'],.plus (· != '>'),literal ['>']]

/-- `\s+` -/
def wsRe : Regex Char := .plus isSpace

/-- The texts a tag name of a pattern may match, up to lower-case images. -/
def tagForms (tag : Text) : List Text :=
  tag.foldr (fun c forms => (foldForms c).flatMap fun d => forms.map (d::·)) [[]]

/-- `_SCRIPT_STYLE_RE`. The back reference accepts what has the same
lower-case image as the opening tag, so each image is one alternative. -/
def scriptStyleRe : Regex Char :=
  .alts ((["script","style","noscript"].flatMap fun tag => tagForms tag.toList).map fun form =>
    let tag : Regex Char := .seqs (form.map fun c => .symbol (foldChar · == c))
    .seqs [literal ['<'],tag,.star (· != '>'),literal ['>'],.lazyStar (fun _ => true),
      literal "</".toList,tag,literal ['>']])

/-- `_visible_text` -/
def visibleText (charRefs : Text → Text) (html : Text) : Text :=
  let noScript := scriptStyleRe.sub [' '] html
  let text := htmlUnescape charRefs (tagRe.sub [' '] noScript)
  strip (wsRe.sub [' '] text)

/-- `_EMPTY_TEXT_THRESHOLD` -/
def emptyTextThreshold : ℕ := 80

/-- `_PARKING_KEYWORDS` -/
def parkingKeywords : List Text :=
  ["domain is for sale","buy this domain","this domain is parked","default web page",
    "404 not found","site temporarily unavailable","page not found","this page isn't working",
    "sorry, the page you requested could not be found"].map (·.toList)

/-- `classify_empty_page` -/
def classifyEmptyPage (charRefs : Text → Text) (html : Text) (status : ℕ) : Option Text :=
  if 400 ≤ status then some ("Server returned HTTP ".toList++ofInt status)
  else
    let text := visibleText charRefs html
    if html.length<200 then some "Page returned no HTML body".toList
    else if text.length<emptyTextThreshold then some "Page is empty (no visible text)".toList
    else if text.length<600 && parkingKeywords.any fun k => contains k (lower text) then
      some "Domain parking / placeholder page".toList
    else none

end EmptyPages

end ScamLens.Heuristics
