/-! # The prelude of generated code

Every generated file starts with the same Rust text: the type of values and the functions that
generated expressions call.  It is kept here line by line.
-/

namespace TemplateCompiler.Target

/-- The type of values and what converts to it. -/
def preludeValue : List String :=
  ["use std::cmp::Ordering;",
   "use std::collections::HashMap;",
   "use std::fmt;",
   "use std::ops::\x7bAdd, BitXor, Div, Mul, Neg, Rem, Sub\x7d;",
   "use std::sync::Arc;",
   "",
   "/// A dynamically typed template value.",
   "///",
   "/// Lists and maps are shared behind `Arc` so cloning a value while walking",
   "/// `messages` is cheap. Maps keep insertion order, matching JSON objects.",
   "#[derive(Debug, Clone, Default)]",
   "pub enum Value \x7b",
   "    /// A missing variable, property or index.",
   "    #[default]",
   "    Undefined,",
   "    /// JSON `null` / Jinja `none`.",
   "    Null,",
   "    Bool(bool),",
   "    Int(i64),",
   "    Float(f64),",
   "    String(String),",
   "    List(Arc<Vec<Value>>),",
   "    Map(Arc<Vec<(String, Value)>>),",
   "\x7d",
   "",
   "impl Value \x7b",
   "    /// Build a map value, keeping entry order.",
   "    pub fn map<K: Into<String>>(entries: impl IntoIterator<Item = (K, Value)>) -> Value \x7b",
   "        Value::Map(Arc::new(",
   "            entries.into_iter().map(|(k, v)| (k.into(), v)).collect(),",
   "        ))",
   "    \x7d",
   "",
   "    /// Build a list value.",
   "    pub fn list(items: impl IntoIterator<Item = Value>) -> Value \x7b",
   "        Value::List(Arc::new(items.into_iter().collect()))",
   "    \x7d",
   "",
   "    fn as_int(&self) -> Option<i64> \x7b",
   "        match self \x7b",
   "            Value::Int(n) => Some(*n),",
   "            Value::Bool(b) => Some(i64::from(*b)),",
   "            _ => None,",
   "        \x7d",
   "    \x7d",
   "",
   "    fn as_float(&self) -> Option<f64> \x7b",
   "        match self \x7b",
   "            Value::Float(x) => Some(*x),",
   "            Value::Int(n) => Some(*n as f64),",
   "            Value::Bool(b) => Some(f64::from(u8::from(*b))),",
   "            _ => None,",
   "        \x7d",
   "    \x7d",
   "\x7d",
   "",
   "impl fmt::Display for Value \x7b",
   "    fn fmt(&self, f: &mut fmt::Formatter<'_>) -> fmt::Result \x7b",
   "        f.write_str(&to_string_safe(self))",
   "    \x7d",
   "\x7d",
   "",
   "impl From<&str> for Value \x7b",
   "    fn from(s: &str) -> Self \x7b",
   "        Value::String(s.to_string())",
   "    \x7d",
   "\x7d",
   "",
   "impl From<String> for Value \x7b",
   "    fn from(s: String) -> Self \x7b",
   "        Value::String(s)",
   "    \x7d",
   "\x7d",
   "",
   "impl From<bool> for Value \x7b",
   "    fn from(b: bool) -> Self \x7b",
   "        Value::Bool(b)",
   "    \x7d",
   "\x7d",
   "",
   "impl From<i64> for Value \x7b",
   "    fn from(n: i64) -> Self \x7b",
   "        Value::Int(n)",
   "    \x7d",
   "\x7d",
   "",
   "impl From<f64> for Value \x7b",
   "    fn from(x: f64) -> Self \x7b",
   "        Value::Float(x)",
   "    \x7d",
   "\x7d",
   "",
   "impl From<Vec<Value>> for Value \x7b",
   "    fn from(items: Vec<Value>) -> Self \x7b",
   "        Value::List(Arc::new(items))",
   "    \x7d",
   "\x7d",
   "",
   "impl From<LoopInfo> for Value \x7b",
   "    fn from(info: LoopInfo) -> Self \x7b",
   "        let remaining = info.count.saturating_sub(info.index0);",
   "        Value::map([",
   "            (\"index0\", usize_value(info.index0)),",
   "            (\"index\", usize_value(info.index0 + 1)),",
   "            (\"revindex\", usize_value(remaining)),",
   "            (\"revindex0\", usize_value(remaining.saturating_sub(1))),",
   "            (\"first\", Value::Bool(info.first())),",
   "            (\"last\", Value::Bool(info.last())),",
   "            (\"length\", usize_value(info.count)),",
   "        ])",
   "    \x7d",
   "\x7d",
   "",
   "fn usize_value(n: usize) -> Value \x7b",
   "    Value::Int(i64::try_from(n).unwrap_or(i64::MAX))",
   "\x7d",
   ""]

/-- Equality and order. -/
def preludeComparison : List String :=
  ["fn lookup<'v>(entries: &'v [(String, Value)], key: &str) -> Option<&'v Value> \x7b",
   "    entries.iter().find(|(k, _)| k == key).map(|(_, v)| v)",
   "\x7d",
   "",
   "impl PartialEq for Value \x7b",
   "    fn eq(&self, other: &Value) -> bool \x7b",
   "        match (self, other) \x7b",
   "            (Value::Undefined, Value::Undefined) | (Value::Null, Value::Null) => true,",
   "            (Value::String(a), Value::String(b)) => a == b,",
   "            (Value::List(a), Value::List(b)) => a == b,",
   "            (Value::Map(a), Value::Map(b)) => \x7b",
   "                a.len() == b.len() && a.iter().all(|(k, v)| lookup(b, k) == Some(v))",
   "            \x7d",
   "            (Value::Int(a), Value::Int(b)) => a == b,",
   "            _ => match (self.as_float(), other.as_float()) \x7b",
   "                (Some(a), Some(b)) => a == b,",
   "                _ => false,",
   "            \x7d,",
   "        \x7d",
   "    \x7d",
   "\x7d",
   "",
   "impl PartialOrd for Value \x7b",
   "    fn partial_cmp(&self, other: &Value) -> Option<Ordering> \x7b",
   "        match (self, other) \x7b",
   "            (Value::Int(a), Value::Int(b)) => a.partial_cmp(b),",
   "            (Value::String(a), Value::String(b)) => a.partial_cmp(b),",
   "            _ => self.as_float()?.partial_cmp(&other.as_float()?),",
   "        \x7d",
   "    \x7d",
   "\x7d",
   ""]

/-- Arithmetic and concatenation. -/
def preludeArithmetic : List String :=
  ["/// Numeric arithmetic. Integer results fall back to float on overflow; any",
   "/// non-numeric operand yields `Undefined`.",
   "fn arithmetic(",
   "    lhs: &Value,",
   "    rhs: &Value,",
   "    int_op: fn(i64, i64) -> Option<i64>,",
   "    float_op: fn(f64, f64) -> f64,",
   ") -> Value \x7b",
   "    if let (Some(a), Some(b)) = (lhs.as_int(), rhs.as_int()) \x7b",
   "        if let Some(n) = int_op(a, b) \x7b",
   "            return Value::Int(n);",
   "        \x7d",
   "    \x7d",
   "    match (lhs.as_float(), rhs.as_float()) \x7b",
   "        (Some(a), Some(b)) => Value::Float(float_op(a, b)),",
   "        _ => Value::Undefined,",
   "    \x7d",
   "\x7d",
   "",
   "impl Add for Value \x7b",
   "    type Output = Value;",
   "",
   "    fn add(self, rhs: Value) -> Value \x7b",
   "        match (&self, &rhs) \x7b",
   "            (Value::List(a), Value::List(b)) => \x7b",
   "                Value::list(a.iter().chain(b.iter()).cloned())",
   "            \x7d",
   "            (Value::String(_), _) | (_, Value::String(_)) => \x7b",
   "                Value::String(to_string_safe(&self) + &to_string_safe(&rhs))",
   "            \x7d",
   "            _ => arithmetic(&self, &rhs, i64::checked_add, |a, b| a + b),",
   "        \x7d",
   "    \x7d",
   "\x7d",
   "",
   "impl Sub for Value \x7b",
   "    type Output = Value;",
   "",
   "    fn sub(self, rhs: Value) -> Value \x7b",
   "        arithmetic(&self, &rhs, i64::checked_sub, |a, b| a - b)",
   "    \x7d",
   "\x7d",
   "",
   "impl Mul for Value \x7b",
   "    type Output = Value;",
   "",
   "    fn mul(self, rhs: Value) -> Value \x7b",
   "        match (&self, &rhs) \x7b",
   "            (Value::String(s), Value::Int(n)) | (Value::Int(n), Value::String(s)) => \x7b",
   "                Value::String(s.repeat(usize::try_from(*n).unwrap_or(0)))",
   "            \x7d",
   "            _ => arithmetic(&self, &rhs, i64::checked_mul, |a, b| a * b),",
   "        \x7d",
   "    \x7d",
   "\x7d",
   "",
   "impl Div for Value \x7b",
   "    type Output = Value;",
   "",
   "    /// True division: the result is always a float.",
   "    fn div(self, rhs: Value) -> Value \x7b",
   "        match (self.as_float(), rhs.as_float()) \x7b",
   "            (Some(_), Some(b)) if b == 0.0 => Value::Undefined,",
   "            (Some(a), Some(b)) => Value::Float(a / b),",
   "            _ => Value::Undefined,",
   "        \x7d",
   "    \x7d",
   "\x7d",
   "",
   "impl Rem for Value \x7b",
   "    type Output = Value;",
   "",
   "    /// Modulo with the sign of the divisor.",
   "    fn rem(self, rhs: Value) -> Value \x7b",
   "        if let (Some(a), Some(b)) = (self.as_int(), rhs.as_int()) \x7b",
   "            return match a.checked_rem(b) \x7b",
   "                Some(r) if r != 0 && (r < 0) != (b < 0) => Value::Int(r + b),",
   "                Some(r) => Value::Int(r),",
   "                None => Value::Undefined,",
   "            \x7d;",
   "        \x7d",
   "        match (self.as_float(), rhs.as_float()) \x7b",
   "            (Some(_), Some(b)) if b == 0.0 => Value::Undefined,",
   "            (Some(a), Some(b)) => \x7b",
   "                let r = a % b;",
   "                if r != 0.0 && (r < 0.0) != (b < 0.0) \x7b",
   "                    Value::Float(r + b)",
   "                \x7d else \x7b",
   "                    Value::Float(r)",
   "                \x7d",
   "            \x7d",
   "            _ => Value::Undefined,",
   "        \x7d",
   "    \x7d",
   "\x7d",
   "",
   "impl Neg for Value \x7b",
   "    type Output = Value;",
   "",
   "    fn neg(self) -> Value \x7b",
   "        match self \x7b",
   "            Value::Float(x) => Value::Float(-x),",
   "            other => match other.as_int() \x7b",
   "                Some(n) => n.checked_neg().map_or(Value::Float(-(n as f64)), Value::Int),",
   "                None => Value::Undefined,",
   "            \x7d,",
   "        \x7d",
   "    \x7d",
   "\x7d",
   "",
   "/// String concatenation (`~`): both sides are stringified.",
   "impl BitXor for Value \x7b",
   "    type Output = Value;",
   "",
   "    fn bitxor(self, rhs: Value) -> Value \x7b",
   "        Value::String(to_string_safe(&self) + &to_string_safe(&rhs))",
   "    \x7d",
   "\x7d",
   ""]

/-- Loop metadata and the text of a value. -/
def preludePrinting : List String :=
  ["/// Loop metadata for the current iteration.",
   "#[derive(Debug, Clone, Copy, PartialEq, Eq)]",
   "pub struct LoopInfo \x7b",
   "    pub index0: usize,",
   "    pub count: usize,",
   "\x7d",
   "",
   "impl LoopInfo \x7b",
   "    pub fn new(index0: usize, count: usize) -> Self \x7b",
   "        Self \x7b index0, count \x7d",
   "    \x7d",
   "",
   "    pub fn first(&self) -> bool \x7b",
   "        self.index0 == 0",
   "    \x7d",
   "",
   "    pub fn last(&self) -> bool \x7b",
   "        self.index0 + 1 == self.count",
   "    \x7d",
   "\x7d",
   "",
   "/// Stringify a value the way the template would print it.",
   "///",
   "/// Undefined prints nothing, null prints `None`, booleans print `True` /",
   "/// `False` and containers print their Python repr.",
   "pub fn to_string_safe(value: &Value) -> String \x7b",
   "    match value \x7b",
   "        Value::Undefined => String::new(),",
   "        Value::String(s) => s.clone(),",
   "        other => repr(other),",
   "    \x7d",
   "\x7d",
   "",
   "fn repr(value: &Value) -> String \x7b",
   "    match value \x7b",
   "        Value::Undefined | Value::Null => \"None\".to_string(),",
   "        Value::Bool(true) => \"True\".to_string(),",
   "        Value::Bool(false) => \"False\".to_string(),",
   "        Value::Int(n) => n.to_string(),",
   "        Value::Float(x) => format_float(*x),",
   "        Value::String(s) => repr_str(s),",
   "        Value::List(items) => \x7b",
   "            let items: Vec<String> = items.iter().map(repr).collect();",
   "            format!(\"[\x7b\x7d]\", items.join(\", \"))",
   "        \x7d",
   "        Value::Map(entries) => \x7b",
   "            let entries: Vec<String> = entries",
   "                .iter()",
   "                .map(|(k, v)| format!(\"\x7b\x7d: \x7b\x7d\", repr_str(k), repr(v)))",
   "                .collect();",
   "            format!(\"\x7b\x7b\x7b\x7d\x7d\x7d\", entries.join(\", \"))",
   "        \x7d",
   "    \x7d",
   "\x7d",
   "",
   "fn repr_str(s: &str) -> String \x7b",
   "    let quote = if s.contains('\\'') && !s.contains('\"') \x7b",
   "        '\"'",
   "    \x7d else \x7b",
   "        '\\''",
   "    \x7d;",
   "    let mut out = String::with_capacity(s.len() + 2);",
   "    out.push(quote);",
   "    for ch in s.chars() \x7b",
   "        match ch \x7b",
   "            '\\\\' => out.push_str(\"\\\\\\\\\"),",
   "            '\\n' => out.push_str(\"\\\\n\"),",
   "            '\\r' => out.push_str(\"\\\\r\"),",
   "            '\\t' => out.push_str(\"\\\\t\"),",
   "            c if c == quote => \x7b",
   "                out.push('\\\\');",
   "                out.push(c);",
   "            \x7d",
   "            c => out.push(c),",
   "        \x7d",
   "    \x7d",
   "    out.push(quote);",
   "    out",
   "\x7d",
   "",
   "/// Shortest round-trip float formatting with a trailing `.0` for integral",
   "/// values and a signed two-digit exponent outside `[1e-4, 1e16)`.",
   "fn format_float(x: f64) -> String \x7b",
   "    if x.is_nan() \x7b",
   "        return \"nan\".to_string();",
   "    \x7d",
   "    if x.is_infinite() \x7b",
   "        return if x > 0.0 \x7b \"inf\" \x7d else \x7b \"-inf\" \x7d.to_string();",
   "    \x7d",
   "    let magnitude = x.abs();",
   "    if magnitude != 0.0 && !(1e-4..1e16).contains(&magnitude) \x7b",
   "        let formatted = format!(\"\x7bx:e\x7d\");",
   "        if let Some((mantissa, exponent)) = formatted.split_once('e') \x7b",
   "            let exponent: i32 = exponent.parse().unwrap_or(0);",
   "            let sign = if exponent < 0 \x7b '-' \x7d else \x7b '+' \x7d;",
   "            return format!(\"\x7bmantissa\x7de\x7bsign\x7d\x7b:02\x7d\", exponent.abs());",
   "        \x7d",
   "        return formatted;",
   "    \x7d",
   "    if x.fract() == 0.0 \x7b",
   "        format!(\"\x7bx:.1\x7d\")",
   "    \x7d else \x7b",
   "        format!(\"\x7bx\x7d\")",
   "    \x7d",
   "\x7d",
   ""]

/-- Definedness, truth and JSON. -/
def preludeTests : List String :=
  ["/// `x is defined`",
   "pub fn is_defined(value: &Value) -> bool \x7b",
   "    !matches!(value, Value::Undefined)",
   "\x7d",
   "",
   "/// Jinja truthiness.",
   "pub fn truthy(value: &Value) -> bool \x7b",
   "    match value \x7b",
   "        Value::Undefined | Value::Null => false,",
   "        Value::Bool(b) => *b,",
   "        Value::Int(n) => *n != 0,",
   "        Value::Float(x) => *x != 0.0,",
   "        Value::String(s) => !s.is_empty(),",
   "        Value::List(items) => !items.is_empty(),",
   "        Value::Map(entries) => !entries.is_empty(),",
   "    \x7d",
   "\x7d",
   "",
   "/// The `tojson` filter: compact JSON with `\", \"` and `\": \"` separators,",
   "/// non-ASCII characters left unescaped and map keys in insertion order.",
   "pub fn to_json(value: &Value) -> Value \x7b",
   "    let mut out = String::new();",
   "    write_json(value, &mut out);",
   "    Value::String(out)",
   "\x7d",
   "",
   "fn write_json(value: &Value, out: &mut String) \x7b",
   "    match value \x7b",
   "        Value::Undefined | Value::Null => out.push_str(\"null\"),",
   "        Value::Bool(b) => out.push_str(if *b \x7b \"true\" \x7d else \x7b \"false\" \x7d),",
   "        Value::Int(n) => out.push_str(&n.to_string()),",
   "        Value::Float(x) if x.is_nan() => out.push_str(\"NaN\"),",
   "        Value::Float(x) if x.is_infinite() => \x7b",
   "            out.push_str(if *x > 0.0 \x7b \"Infinity\" \x7d else \x7b \"-Infinity\" \x7d);",
   "        \x7d",
   "        Value::Float(x) => out.push_str(&format_float(*x)),",
   "        Value::String(s) => write_json_str(s, out),",
   "        Value::List(items) => \x7b",
   "            out.push('[');",
   "            for (i, item) in items.iter().enumerate() \x7b",
   "                if i > 0 \x7b",
   "                    out.push_str(\", \");",
   "                \x7d",
   "                write_json(item, out);",
   "            \x7d",
   "            out.push(']');",
   "        \x7d",
   "        Value::Map(entries) => \x7b",
   "            out.push('\x7b');",
   "            for (i, (key, item)) in entries.iter().enumerate() \x7b",
   "                if i > 0 \x7b",
   "                    out.push_str(\", \");",
   "                \x7d",
   "                write_json_str(key, out);",
   "                out.push_str(\": \");",
   "                write_json(item, out);",
   "            \x7d",
   "            out.push('\x7d');",
   "        \x7d",
   "    \x7d",
   "\x7d",
   "",
   "fn write_json_str(s: &str, out: &mut String) \x7b",
   "    out.push('\"');",
   "    for ch in s.chars() \x7b",
   "        match ch \x7b",
   "            '\"' => out.push_str(\"\\\\\\\"\"),",
   "            '\\\\' => out.push_str(\"\\\\\\\\\"),",
   "            '\\n' => out.push_str(\"\\\\n\"),",
   "            '\\r' => out.push_str(\"\\\\r\"),",
   "            '\\t' => out.push_str(\"\\\\t\"),",
   "            '\\u\x7b08\x7d' => out.push_str(\"\\\\b\"),",
   "            '\\u\x7b0c\x7d' => out.push_str(\"\\\\f\"),",
   "            c if u32::from(c) < 0x20 => out.push_str(&format!(\"\\\\u\x7b:04x\x7d\", u32::from(c))),",
   "            c => out.push(c),",
   "        \x7d",
   "    \x7d",
   "    out.push('\"');",
   "\x7d",
   ""]

/-- Iteration, look-up and membership. -/
def preludeAccess : List String :=
  ["/// The items a `for` loop iterates over.",
   "///",
   "/// Missing values iterate nothing, a string is a single item and a map",
   "/// iterates its keys.",
   "pub fn as_list(value: &Value) -> Vec<Value> \x7b",
   "    match value \x7b",
   "        Value::Undefined | Value::Null => Vec::new(),",
   "        Value::List(items) => items.to_vec(),",
   "        Value::Map(entries) => entries",
   "            .iter()",
   "            .map(|(k, _)| Value::String(k.clone()))",
   "            .collect(),",
   "        other => vec![other.clone()],",
   "    \x7d",
   "\x7d",
   "",
   "/// Resolve a template variable: `set` bindings first, then `fallback`.",
   "pub fn get_var(locals: &HashMap<String, Value>, name: &str, fallback: &Value) -> Value \x7b",
   "    locals.get(name).unwrap_or(fallback).clone()",
   "\x7d",
   "",
   "/// `value.name`",
   "pub fn get_prop(value: &Value, name: &str) -> Value \x7b",
   "    match value \x7b",
   "        Value::Map(entries) => lookup(entries, name).cloned().unwrap_or_default(),",
   "        _ => Value::Undefined,",
   "    \x7d",
   "\x7d",
   "",
   "/// `value[key]`: map keys by string, list and string positions by integer.",
   "/// Negative positions count from the end.",
   "pub fn get_index(value: &Value, key: &Value) -> Value \x7b",
   "    match (value, key) \x7b",
   "        (Value::Map(entries), Value::String(k)) => \x7b",
   "            lookup(entries, k).cloned().unwrap_or_default()",
   "        \x7d",
   "        (Value::List(items), Value::Int(n)) => resolve_position(*n, items.len())",
   "            .and_then(|i| items.get(i))",
   "            .cloned()",
   "            .unwrap_or_default(),",
   "        (Value::String(s), Value::Int(n)) => resolve_position(*n, s.chars().count())",
   "            .and_then(|i| s.chars().nth(i))",
   "            .map(|c| Value::String(c.to_string()))",
   "            .unwrap_or_default(),",
   "        _ => Value::Undefined,",
   "    \x7d",
   "\x7d",
   "",
   "fn resolve_position(index: i64, len: usize) -> Option<usize> \x7b",
   "    let len = i64::try_from(len).ok()?;",
   "    let resolved = if index < 0 \x7b index + len \x7d else \x7b index \x7d;",
   "    if (0..len).contains(&resolved) \x7b",
   "        usize::try_from(resolved).ok()",
   "    \x7d else \x7b",
   "        None",
   "    \x7d",
   "\x7d",
   "",
   "/// `item in container`",
   "pub fn contains(container: &Value, item: &Value) -> bool \x7b",
   "    match (container, item) \x7b",
   "        (Value::String(haystack), Value::String(needle)) => haystack.contains(needle.as_str()),",
   "        (Value::List(items), _) => items.iter().any(|v| v == item),",
   "        (Value::Map(entries), Value::String(key)) => lookup(entries, key).is_some(),",
   "        _ => false,",
   "    \x7d",
   "\x7d"]

/-- The lines of the prelude. -/
def preludeLines : List String :=
  preludeValue ++ preludeComparison ++ preludeArithmetic ++ preludePrinting ++ preludeTests ++
    preludeAccess

/-- The prelude, with a line break after each line. -/
def preludeText : List Char := preludeLines.flatMap fun l => l.toList ++ ['\n']

end TemplateCompiler.Target
