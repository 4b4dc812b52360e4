import DesignTokens.Theme.Error

/-! The tier of design decisions that every component shares. -/

namespace DesignTokens.Theme.Semantic

def color : Schema := .record "SemanticColors" [
  ("surface", .text), ("onSurface", .text), ("onSurfaceMuted", .text), ("surfaceContainer", .text),
  ("primary", .text), ("onPrimary", .text), ("primaryHover", .text), ("primaryPressed", .text),
  ("secondary", .text), ("onSecondary", .text), ("success", .text), ("onSuccess", .text),
  ("error", .text), ("onError", .text), ("warning", .text), ("onWarning", .text),
  ("border", .text), ("borderSubtle", .text), ("disabledContainer", .text), ("onDisabled", .text),
  ("primaryContainer", .text), ("onPrimaryContainer", .text), ("secondaryContainer", .text),
  ("onSecondaryContainer", .text), ("errorContainer", .text), ("onErrorContainer", .text),
  ("successContainer", .text), ("onSuccessContainer", .text), ("warningContainer", .text),
  ("onWarningContainer", .text), ("overlay", .text)]

def fontFamily : Schema := .record "SemanticFontFamily" [
  ("brand", .text), ("interface", .text), ("data", .text)]

def fontSize : Schema := .record "SemanticFontSize" [
  ("display", .number), ("h1", .number), ("h2", .number), ("h3", .number), ("body", .number),
  ("small", .number), ("button", .number)]

def fontWeight : Schema := .record "SemanticFontWeight" [
  ("heading", .number), ("body", .number), ("button", .number)]

def lineHeight : Schema := .record "SemanticLineHeight" [
  ("heading", .number), ("body", .number), ("uiLabel", .number)]

def letterSpacing : Schema := .record "SemanticLetterSpacing" [
  ("heading", .number), ("body", .number), ("label", .number)]

def paragraphSpacing : Schema := .record "SemanticParagraphSpacing" [
  ("body", .number), ("editorial", .number)]

def paragraphIndent : Schema := .record "SemanticParagraphIndent" [
  ("editorial", .number)]

def borderRadius : Schema := .record "SemanticBorderRadius" [
  ("small", .number), ("medium", .number), ("large", .number), ("full", .number)]

def spacing : Schema := .record "SemanticSpacing" [
  ("xs", .number), ("sm", .number), ("md", .number), ("lg", .number), ("xl", .number)]

def borderWidth : Schema := .record "SemanticBorderWidth" [
  ("thin", .number), ("medium", .number)]

def elevation : Schema := .record "SemanticElevation" [
  ("none", .number), ("xs", .number), ("sm", .number), ("md", .number), ("lg", .number),
  ("xl", .number)]

def size : Schema := .record "SemanticSize" [
  ("xs", .number), ("sm", .number), ("md", .number), ("lg", .number), ("xl", .number),
  ("xxl", .number), ("xxxl", .number)]

def opacity : Schema := .record "SemanticOpacity" [
  ("disabled", .number), ("overlay", .number)]

def semantic : Schema := .record "SemanticTokens" [
  ("color", color), ("fontFamily", fontFamily), ("fontSize", fontSize), ("fontWeight", fontWeight),
  ("lineHeight", lineHeight), ("letterSpacing", letterSpacing),
  ("paragraphSpacing", paragraphSpacing), ("paragraphIndent", paragraphIndent),
  ("borderRadius", borderRadius), ("spacing", spacing), ("borderWidth", borderWidth),
  ("elevation", elevation), ("size", size), ("opacity", opacity)]

end DesignTokens.Theme.Semantic
