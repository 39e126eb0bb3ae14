import Calculator.Backend.Validate
import Calculator.Display.FormatNumber
import Calculator.Store.Evaluation
import Calculator.Store.Expression
import Calculator.Store.LateAnswers
import Calculator.Store.Reset
import Calculator.Store.Requests
import Calculator.RateLimit.Invisibility
import Calculator.Engine.Grammar
import Calculator.Engine.Precision
import Calculator.Binary.Integers
import Calculator.Display.Grouping
import Calculator.Store.Typing
import Calculator.Store.Edits
import Calculator.Backend.Decode
import Calculator.Backend.Handler
import Calculator.Backend.Router
import Calculator.Backend.Metrics
import Calculator.Backend.Agreement
import Calculator.History.Schema
import Calculator.History.Storage
import Calculator.History.Session
import Calculator.RateLimit.LedgerLimiter
import Calculator.RateLimit.Refusals
import Calculator.RateLimit.RetryAfter
import Calculator.RateLimit.Population
import Calculator.Http.Document
import Calculator.Http.Timeout
import Calculator.Http.Responses
import Calculator.Http.Panics
import Calculator.Http.RequestID
import Calculator.Api.Errors
import Calculator.Settings.Loader
import Calculator.Settings.Load
import Calculator.Settings.Healthcheck
import Calculator.Binary.ShortDecimals
import Calculator.Ecma.Shortest
import Calculator.Display.Trimming
import Calculator.Display.Accuracy
import Calculator.Json.Reader
import Calculator.Json.Completeness
import Calculator.Backend.Body
import Calculator.Json.Ascii
import Calculator.Backend.Contract
import Calculator.Browser.LocalStorage
import Calculator.History.Migration
import Calculator.Ecma.Literals
import Calculator.Json.Writing
import Calculator.Browser.Json
import Calculator.Ecma.Length
import Calculator.Wire.Requests
import Calculator.Http.Marshal
import Calculator.Api.Calculations
import Calculator.Wire.Responses
import Calculator.Wire.Exchange
import Calculator.History.Persistence
import Calculator.Wire.Programs
import Calculator.Wire.Records
import Calculator.Api.Operations
import Calculator.Components.Keys
import Calculator.Components.Page
import Calculator.Http.AccessLog
import Calculator.RateLimit.Sustained
import Calculator.Wire.Discovery
import Calculator.Http.Guards
import Calculator.RateLimit.Seconds
import Calculator.Wire.Refusals
