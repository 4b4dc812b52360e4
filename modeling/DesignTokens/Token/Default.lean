import DesignTokens.Number.Decimal
import DesignTokens.Token.Tree

/-! The token tree that the base theme is assembled from. -/

namespace DesignTokens.Token.Default

def token (type : String) (value : Document) : Document :=
  .object [("$type", .text type), (valueKey, value)]

def integer (z : Int) : Document := .number (.integer z)

def color (hex : String) : Document :=
  token "color" (.object [("colorSpace", .text "srgb"), ("alpha", integer 1), (hexKey, .text hex)])

def font (family : String) : Document := token "string" (.text family)

def size (z : Int) : Document := token "number" (integer z)

def ratio (negative : Bool) (value : Decimal) : Document :=
  token "number" (.number (.binary (value.toBinary64 negative)))

def aliasOf (type path : String) : Document := token type (.text (Path.ofText path).toAlias)

def colorAs (path : String) : Document := aliasOf "color" path

def fontAs (path : String) : Document := aliasOf "string" path

def sizeAs (path : String) : Document := aliasOf "number" path

def described (description : String) : Document → Document
  | .object entries => .object (entries ++ [("$description", .text description)])
  | other => other

def primitiveColour : Document := .object [
  ("Slate-50", color "#F8FAFC"),
  ("Slate-100", color "#F1F5F9"),
  ("Slate-200", color "#E2E8F0"),
  ("Slate-300", color "#CBD5E1"),
  ("Slate-400", color "#94A3B8"),
  ("Slate-500", color "#64748B"),
  ("Slate-600", color "#475569"),
  ("Slate-700", color "#334155"),
  ("Slate-800", color "#1E293B"),
  ("Slate-900", color "#0F172A"),
  ("Blue-100", color "#DBEAFE"),
  ("Blue-600", color "#2563EB"),
  ("Blue-700", color "#1D4ED8"),
  ("Blue-800", color "#1E40AF"),
  ("Blue-900", color "#1E3A8A"),
  ("Teal-100", color "#CCFBF1"),
  ("Teal-600", color "#0D9488"),
  ("Teal-900", color "#134E4A"),
  ("Green-100", color "#DCFCE7"),
  ("Green-600", color "#16A34A"),
  ("Green-900", color "#14532D"),
  ("Red-100", color "#FEE2E2"),
  ("Red-600", color "#DC2626"),
  ("Red-900", color "#7F1D1D"),
  ("Amber-100", color "#FEF3C7"),
  ("Amber-500", color "#F59E0B"),
  ("Amber-900", color "#78350F"),
  ("White", color "#FFFFFF"),
  ("Black", color "#000000")]

def primitiveSpacing : Document := .object [
  ("025", size 2),
  ("050", size 4),
  ("100", size 8),
  ("150", size 12),
  ("200", size 16),
  ("300", size 24),
  ("400", size 32),
  ("600", size 48),
  ("800", size 64)]

def primitiveBorderRadius : Document := .object [
  ("Radius-4", size 4),
  ("Radius-8", size 8),
  ("Radius-16", size 16),
  ("Radius-Full", size 9999)]

def primitiveFontFamily : Document := .object [
  ("Inter", font "Inter"),
  ("Poppins", font "Poppins"),
  ("JetBrains Mono", font "JetBrains Mono")]

def primitiveFontSize : Document := .object [
  ("Size-12", size 12),
  ("Size-14", size 14),
  ("Size-16", size 16),
  ("Size-20", size 20),
  ("Size-24", size 24),
  ("Size-32", size 32),
  ("Size-48", size 48)]

def primitiveFontWeight : Document := .object [
  ("Regular", size 400),
  ("Medium", size 500),
  ("Bold", size 700)]

def primitiveLineHeight : Document := .object [
  ("Tight", ratio false ⟨12, -1⟩),
  ("Snug", ratio false ⟨125, -2⟩),
  ("Normal", ratio false ⟨15, -1⟩)]

def primitiveLetterSpacing : Document := .object [
  ("Tight", ratio true ⟨5, -1⟩),
  ("Normal", size 0),
  ("Wide", ratio false ⟨5, -1⟩)]

def primitive : Document := .object [
  ("Colour", primitiveColour),
  ("Spacing", primitiveSpacing),
  ("Border radius", primitiveBorderRadius),
  ("Font family", primitiveFontFamily),
  ("Font size", primitiveFontSize),
  ("Font weight", primitiveFontWeight),
  ("Line height", primitiveLineHeight),
  ("Letter spacing", primitiveLetterSpacing)]

def semanticColour : Document := .object [
  ("Surface", colorAs "Primitive.Colour.White"),
  ("On-Surface", colorAs "Primitive.Colour.Slate-900"),
  ("On-Surface-Muted", colorAs "Primitive.Colour.Slate-600"),
  ("Surface-Container", colorAs "Primitive.Colour.Slate-100"),
  ("Primary", colorAs "Primitive.Colour.Blue-600"),
  ("On-Primary", colorAs "Primitive.Colour.White"),
  ("Primary-Hover", colorAs "Primitive.Colour.Blue-700"),
  ("Primary-Pressed", colorAs "Primitive.Colour.Blue-800"),
  ("Secondary", colorAs "Primitive.Colour.Teal-600"),
  ("On-Secondary", colorAs "Semantic.Colour.On-Primary"),
  ("Success", colorAs "Primitive.Colour.Green-600"),
  ("On-Success", colorAs "Semantic.Colour.On-Primary"),
  ("Error", colorAs "Primitive.Colour.Red-600"),
  ("On-Error", colorAs "Semantic.Colour.On-Primary"),
  ("Warning", colorAs "Primitive.Colour.Amber-500"),
  ("On-Warning", colorAs "Semantic.Colour.On-Surface"),
  ("Border", colorAs "Primitive.Colour.Slate-300"),
  ("Border-Subtle", colorAs "Primitive.Colour.Slate-200"),
  ("Disabled-Container", colorAs "Primitive.Colour.Slate-200"),
  ("On-Disabled", colorAs "Primitive.Colour.Slate-400"),
  ("Primary-Container", colorAs "Primitive.Colour.Blue-100"),
  ("On-Primary-Container", colorAs "Primitive.Colour.Blue-900"),
  ("Secondary-Container", colorAs "Primitive.Colour.Teal-100"),
  ("On-Secondary-Container", colorAs "Primitive.Colour.Teal-900"),
  ("Error-Container", colorAs "Primitive.Colour.Red-100"),
  ("On-Error-Container", colorAs "Primitive.Colour.Red-900"),
  ("Success-Container", colorAs "Primitive.Colour.Green-100"),
  ("On-Success-Container", colorAs "Primitive.Colour.Green-900"),
  ("Warning-Container", colorAs "Primitive.Colour.Amber-100"),
  ("On-Warning-Container", colorAs "Primitive.Colour.Amber-900")]

def semanticFontFamily : Document := .object [
  ("Font-Brand", fontAs "Primitive.Font family.Poppins"),
  ("Font-Interface", fontAs "Primitive.Font family.Inter"),
  ("Font-Data", fontAs "Primitive.Font family.JetBrains Mono")]

def semanticTextSize : Document := .object [
  ("Text-size-display", sizeAs "Primitive.Font size.Size-48"),
  ("Text-size-h1", sizeAs "Primitive.Font size.Size-32"),
  ("Text-size-h2", sizeAs "Primitive.Font size.Size-24"),
  ("Text-size-h3", sizeAs "Primitive.Font size.Size-20"),
  ("Text-size-body", sizeAs "Primitive.Font size.Size-16"),
  ("Text-size-small", sizeAs "Primitive.Font size.Size-14"),
  ("Text-size-button", sizeAs "Primitive.Font size.Size-14")]

def semanticFontWeight : Document := .object [
  ("Weight-heading", sizeAs "Primitive.Font weight.Bold"),
  ("Weight-body", sizeAs "Primitive.Font weight.Regular"),
  ("Weight-button", sizeAs "Primitive.Font weight.Medium")]

def semanticLineHeight : Document := .object [
  ("Line-Height-heading", sizeAs "Primitive.Line height.Tight"),
  ("Line-Height-body", sizeAs "Primitive.Line height.Normal"),
  ("Line-Height-UI-label", sizeAs "Primitive.Line height.Snug")]

def semanticLetterSpacing : Document := .object [
  ("Tracking-heading", sizeAs "Primitive.Letter spacing.Tight"),
  ("Tracking-body", sizeAs "Primitive.Letter spacing.Normal"),
  ("Tracking-label", sizeAs "Primitive.Letter spacing.Wide")]

def semanticParagraphSpacing : Document := .object [
  ("Para-body", sizeAs "Primitive.Spacing.200"),
  ("Para-editorial", sizeAs "Primitive.Spacing.300")]

def semanticParagraphIndent : Document := .object [
  ("Indent-editorial", sizeAs "Primitive.Spacing.300")]

def semanticBorderRadius : Document := .object [
  ("Radius-Small", sizeAs "Primitive.Border radius.Radius-4"),
  ("Radius-Medium", sizeAs "Primitive.Border radius.Radius-8"),
  ("Radius-Large", sizeAs "Primitive.Border radius.Radius-16")]

def semantic : Document := .object [
  ("Colour", semanticColour),
  ("Font family", semanticFontFamily),
  ("Text size", semanticTextSize),
  ("Font weight", semanticFontWeight),
  ("Line height", semanticLineHeight),
  ("Letter spacing", semanticLetterSpacing),
  ("Paragraph spacing", semanticParagraphSpacing),
  ("Paragraph indent", semanticParagraphIndent),
  ("Border radius", semanticBorderRadius)]

def componentButtonFilled : Document := .object [
  ("Background", colorAs "Semantic.Colour.Primary"),
  ("Content", colorAs "Semantic.Colour.On-Primary")]

def componentButtonOutline : Document := .object [
  ("Background", colorAs "Semantic.Colour.Surface"),
  ("Border", colorAs "Semantic.Colour.Primary"),
  ("Content", colorAs "Semantic.Colour.Primary")]

def componentButtonText : Document := .object [
  ("Background", colorAs "Semantic.Colour.Surface"),
  ("Content", colorAs "Semantic.Colour.Primary")]

def componentButtonState : Document := .object [
  ("Hover-Background", colorAs "Semantic.Colour.Primary-Hover"),
  ("Pressed-Background", colorAs "Semantic.Colour.Primary-Pressed"),
  ("Disabled-Background", colorAs "Semantic.Colour.Disabled-Container"),
  ("Disabled-Content", colorAs "Semantic.Colour.On-Disabled")]

def componentButton : Document := .object [
  ("Padding-Horizontal", sizeAs "Primitive.Spacing.200"),
  ("Padding-Vertical", sizeAs "Primitive.Spacing.100"),
  ("Gap", sizeAs "Primitive.Spacing.100"),
  ("Corner-Radius", sizeAs "Semantic.Border radius.Radius-Medium"),
  ("Border-Width", sizeAs "Primitive.Spacing.025"),
  ("Text-Size", sizeAs "Semantic.Text size.Text-size-button"),
  ("Font-Weight", sizeAs "Semantic.Font weight.Weight-button"),
  ("Line-Height", sizeAs "Semantic.Line height.Line-Height-UI-label"),
  ("Font-Family", fontAs "Semantic.Font family.Font-Interface"),
  ("Filled", componentButtonFilled),
  ("Outline", componentButtonOutline),
  ("Text", componentButtonText),
  ("State", componentButtonState)]

def componentCard : Document := .object [
  ("Padding", sizeAs "Primitive.Spacing.200"),
  ("Gap", sizeAs "Primitive.Spacing.150"),
  ("Background", colorAs "Semantic.Colour.Surface"),
  ("Stroke", colorAs "Semantic.Colour.Border-Subtle"),
  ("Stroke-Width", described "Hairline card outline" (size 1)),
  ("Corner-Radius", sizeAs "Semantic.Border radius.Radius-Large"),
  ("Elevation", size 1),
  ("Heading-Size", sizeAs "Semantic.Text size.Text-size-h3"),
  ("Heading-Weight", sizeAs "Semantic.Font weight.Weight-heading"),
  ("Heading-Font-Family", fontAs "Semantic.Font family.Font-Brand"),
  ("Body-Size", sizeAs "Semantic.Text size.Text-size-body"),
  ("Body-Weight", sizeAs "Semantic.Font weight.Weight-body"),
  ("Body-Font-Family", fontAs "Semantic.Font family.Font-Interface")]

def component : Document := .object [
  ("Button", componentButton),
  ("Card", componentCard)]

def root : Entries Document := [
  ("Primitive", primitive),
  ("Semantic", semantic),
  ("Component", component)]

def tree : Tree := ⟨root⟩

end DesignTokens.Token.Default
